import PolicySystem.Gateway.MultiGraph

/-!
# Every run of the gateway

* `reachable_inv`: the invariant holds in every world a run reaches;
* `log_marker_invariant`: **log, marker and content belong together**;
* `swap_set_all_or_nothing`: **a swap set is swapped whole**;
* `multi_graph_commit_atomic`: **a multi-graph group is logged whole or changes nothing.**
-/

namespace PolicySystem

open Faults Proc PropertyGraph GraphWrite

section Runs

variable (gw : GraphWriteGateway) {start : String → Graph} {w : World}

/-- The content a graph has before anything is logged. -/
def startOf (live : String → Option StoredGraph) (g : String) : Graph := ((live g).getD {}).content

/-- **Every call keeps the invariant**, however it ends. -/
theorem program_keeps (call : GatewayCall) (hI : Inv start w) : wp (call.program gw) (fun _ => Inv start) w := by
  suffices h : wp (call.program gw) (Ends (fun _ => Inv start) (Inv start)) w by
    refine wp_mono h fun x s hx => ?_
    cases x <;> exact hx
  unfold GatewayCall.program
  cases call with
  | submitGroup group => exact ends_bind (ends_mono (ends_submitGroup gw hI group) (fun _ _ h => h.1) fun _ h => h) fun _ _ h => wp_pure h
  | submitGroupInTransaction group => exact ends_submitGroupInTransaction gw hI group
  | commit submission => exact ends_commitTransaction hI submission
  | rollback submission => exact ends_rollbackTransaction hI submission
  | complete submission => exact ends_bind (ends_complete gw hI submission) fun _ _ h => wp_pure h
  | abort submission => exact ends_abort hI submission
  | submitMultiGraphGroup group =>
    exact ends_bind (ends_mono (ends_submitMultiGraphGroup gw hI group) (fun _ _ h => h.1.1) fun _ h => h.1)
      fun _ _ h => wp_pure h
  | catchUp graph =>
    exact ends_bind (ends_mono (ends_withUnit gw hI 3) (fun _ _ h => h.1) fun _ h => h.1) fun _ _ h => wp_pure h
  | recover => exact ends_mono (ends_recover gw hI) (fun _ _ h => h.1) fun _ h => h.1
  | reconcile => exact ends_mono (ends_reconcile gw hI) (fun _ _ h => h.1) fun _ h => h.1
  | restart => exact wp_modify (hI.imp fun _ h => h.crash)

/-- **The invariant holds in every world a run reaches.** A schedule that runs out is a death at that moment, so
these are the worlds at every moment of every run. -/
theorem reachable_inv (live : String → Option StoredGraph) (calls : List (GatewayCall × List Fate)) :
    Inv (startOf live) (runCalls gw (World.initial live) calls) := by
  refine runAll_keeps (fun _ h => h.imp fun _ h => h.crash) (fun step hstep w hw => ?_) ⟨_, initial_ok live⟩
  obtain ⟨c, -, rfl⟩ := List.mem_map.1 hstep
  exact program_keeps gw c.1 hw

/-- **The log/marker invariant.** In every world a run reaches: no group is logged twice; the positions of a graph
are 1 to n, each in one of its groups; its marker is not past the last; and with the marker there the content is
the entries over the initial content, in position order. -/
theorem log_marker_invariant (live : String → Option StoredGraph) (calls : List (GatewayCall × List Fate)) :
    let w := runCalls gw (World.initial live) calls
    (w.groups.map fun r => (r.submission, r.graph)).Nodup ∧ ∀ g, ∃ logged : List Primitive,
      w.entries g = (numbered 1 logged).map rowOf ∧
      (w.groups.filter fun r => r.graph = g).flatMap GroupRow.positions = List.range' 1 logged.length ∧
      w.lastPosition g = logged.length ∧ w.applied g ≤ w.lastPosition g ∧
      (w.applied g = w.lastPosition g → w.content g = applyAll (startOf live g) logged) := by
  obtain ⟨flipped, hok⟩ := reachable_inv gw live calls
  intro w
  refine ⟨(List.nodup_append.1 hok.once).1, fun g => ⟨(w.view g).logged, (hok.graphs g).entries, (hok.graphs g).tiles, ?_⟩⟩
  have hlast : w.lastPosition g = (w.view g).logged.length := lastPosition_eq (hok.graphs g)
  rw [hlast]
  exact ⟨rfl, (hok.graphs g).marker, fun hc => (hok.graphs g).content_eq hc⟩

/-- **A swap set is all or nothing.** In every world a run reaches the legs of a swap set all show their graphs
before the group, or all show their graphs after it and what was logged later; a staged copy becomes live in no
other state; and with the marker at the last position a leg's graph is its log's. -/
theorem swap_set_all_or_nothing (live : String → Option StoredGraph) (calls : List (GatewayCall × List Fate))
    (swapSet : ℕ) :
    let w := runCalls gw (World.initial live) calls
    let shows := fun (r : GroupRow) (n : ℕ) =>
      w.content r.graph = applyAll (startOf live r.graph) ((w.view r.graph).logged.take n)
    let legs := w.groups.filter fun r => r.swapSet = some swapSet
    ((∀ r ∈ legs, shows r (r.firstPosition - 1) ∧ w.lastPosition r.graph = r.lastPosition) ∨
      ∀ r ∈ legs, if w.lastPosition r.graph = r.lastPosition then shows r r.lastPosition
        else r.lastPosition ≤ w.applied r.graph) ∧
      ∀ r ∈ legs, w.applied r.graph = w.lastPosition r.graph → shows r (w.lastPosition r.graph) := by
  obtain ⟨flipped, hok⟩ := reachable_inv gw live calls
  intro w shows legs
  have hlegs : ∀ r ∈ legs, r ∈ (w.view r.graph).rows ∧ r.swapSet = some swapSet := by
    intro r hr
    obtain ⟨hr, hrs⟩ := List.mem_filter.1 hr
    exact ⟨mem_rows.2 ⟨hr, rfl⟩, of_decide_eq_true hrs⟩
  have hlast : ∀ g, w.lastPosition g = (w.view g).logged.length := fun g => lastPosition_eq (hok.graphs g)
  have hcaught : ∀ g, w.applied g = (w.view g).logged.length → w.content g = (w.view g).atLast (startOf live g) :=
    fun g hc => (hok.graphs g).content_eq hc
  refine ⟨?_, fun r _ hc => ?_⟩
  · by_cases hf : flipped swapSet
    · right
      intro r hr
      obtain ⟨hr, hrs⟩ := hlegs r hr
      by_cases hlt : w.applied r.graph < r.lastPosition
      · have hswap := (hok.graphs r.graph).swap r hr swapSet hrs hlt
        rw [hlast, if_pos hswap.last.symm]
        show w.content r.graph = _
        rw [hswap.last, List.take_length]
        exact hswap.after hf
      · rw [hlast]
        split
        · rename_i heq
          -- no later group: the marker is at the end of the group and of the log
          have hm : w.applied r.graph ≤ (w.view r.graph).logged.length := (hok.graphs r.graph).marker
          show w.content r.graph = _
          rw [hcaught r.graph (by omega), ← heq, List.take_length]
          rfl
        · omega
    · left
      intro r hr
      obtain ⟨hr, hrs⟩ := hlegs r hr
      have hlt := (hok.graphs r.graph).waiting r hr swapSet hrs hf
      have hswap := (hok.graphs r.graph).swap r hr swapSet hrs hlt
      refine ⟨?_, (hlast _).trans hswap.last.symm⟩
      show w.content r.graph = _
      rw [hswap.first]
      exact hswap.before hf
  · show w.content r.graph = _
    rw [hlast] at hc ⊢
    rw [hcaught r.graph hc, List.take_length]
    rfl

/-- What a multi-graph call does before its log transaction: locks, and the legs one after the other. -/
def stageGroup (group : MultiGraphGroup) : Gw (List (GraphLeg × List Primitive)) := do
  lockAll (group.legs.map fun leg => leg.graph)
  let _ ← nextCall
  stageLegs gw group.legs

/-- A call whose staging does not return ends where the staging did. -/
theorem submit_stops {group : MultiGraphGroup} {fates : List Fate}
    (h : ∀ staged, (stageGroup gw group w fates).1 ≠ .returned staged) :
    (submitMultiGraphGroup gw group w fates).2 = (stageGroup gw group w fates).2 := by
  unfold stageGroup at h ⊢
  unfold submitMultiGraphGroup
  by_cases hlock : ∃ u, (lockAll (group.legs.map fun leg => leg.graph) w fates).1 = .returned u
  · obtain ⟨u, hu⟩ := hlock
    rw [bind_returned hu] at h
    rw [bind_returned hu, bind_returned hu]
    generalize (lockAll (group.legs.map fun leg => leg.graph) w fates).2 = r at h ⊢
    have hcall : (nextCall r.1 r.2).1 = .returned r.1.calls := rfl
    rw [bind_returned hcall] at h
    rw [bind_returned hcall, bind_returned hcall]
    exact bind_not_returned h
  · rw [not_exists] at hlock
    rw [bind_not_returned hlock, bind_not_returned hlock]

/-- **Multi-graph commit is atomic.** From every world a run reaches and under every schedule: where staging does not
return (a leg refused, unreachable or behind) and where the log holds no group more (the transaction failed), the
group changed nothing; otherwise, and whenever the call returns, every leg with effective primitives is logged once,
at the next positions of its graph, and no other leg. -/
theorem multi_graph_commit_atomic (live : String → Option StoredGraph) (calls : List (GatewayCall × List Fate))
    (group : MultiGraphGroup) (fates : List Fate) :
    let w := runCalls gw (World.initial live) calls
    let r := submitMultiGraphGroup gw group w fates
    ((∀ staged, (stageGroup gw group w fates).1 ≠ .returned staged) → Untouched (startOf live) group w r.2.1) ∧
      (r.2.1.groups = w.groups → Untouched (startOf live) group w r.2.1) ∧
      (r.2.1.groups ≠ w.groups ∨ (∃ outcomes, r.1 = .returned outcomes) →
        ∃ staged, Committed gw (startOf live) group w staged r.2.1) := by
  intro w r
  have hI : Inv (startOf live) w := reachable_inv gw live calls
  have hend := ends_submitMultiGraphGroup gw hI group fates
  have hatomic : Atomic gw (startOf live) group w r.2.1 ∧
      ((∃ outcomes, r.1 = .returned outcomes) → ∃ staged, Committed gw (startOf live) group w staged r.2.1) := by
    change Ends _ _ r.1 r.2.1 at hend
    cases hexit : r.1 with
    | returned outcomes =>
      rw [hexit] at hend
      exact ⟨hend.1, fun _ => hend.2.1⟩
    | raised e =>
      rw [hexit] at hend
      exact ⟨hend, fun h => by obtain ⟨_, h⟩ := h; cases h⟩
    | died =>
      rw [hexit] at hend
      exact ⟨hend, fun h => by obtain ⟨_, h⟩ := h; cases h⟩
  refine ⟨fun hstop => ?_, fun hsame => ?_, fun h => ?_⟩
  · have hstage : wp (stageGroup gw group) (Ends (fun _ _ => True) (Untouched (startOf live) group w)) w := by
      have hself : Untouched (startOf live) group w w := by
        obtain ⟨flipped, hok⟩ := reachable_inv gw live calls
        exact ⟨rfl, rfl, fun _ _ => ⟨rfl, rfl⟩, fun g hc => (hok.graphs g).content_eq hc⟩
      refine ends_bind (ends_lockAll _ hself) ?_
      rintro - _ ⟨rfl, -⟩
      refine ends_bind ends_nextCall ?_
      rintro _ _ ⟨rfl, rfl⟩
      exact ends_mono (ends_stageLegs gw hI.nextCall (legGraphs_nodup group)) (fun _ _ _ => trivial)
        fun w' hw' => untouched_of_moved hI hw'.1 hw'.2
    have hfates := hstage fates
    have hworld : r.2.1 = (stageGroup gw group w fates).2.1 := congrArg Prod.fst (submit_stops gw hstop)
    rw [hworld]
    cases hexit : (stageGroup gw group w fates).1 with
    | returned staged => exact absurd hexit (hstop staged)
    | raised e => rw [hexit] at hfates; exact hfates
    | died => rw [hexit] at hfates; exact hfates
  · rcases hatomic.1.2 with hu | ⟨hne, -⟩
    · exact hu
    · exact absurd hsame hne
  · rcases h with hne | hreturned
    · rcases hatomic.1.2 with hu | ⟨-, hc⟩
      · exact absurd hu.groups hne
      · exact hc
    · exact hatomic.2 hreturned

end Runs

end PolicySystem
