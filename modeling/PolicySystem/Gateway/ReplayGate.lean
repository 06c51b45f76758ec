import PolicySystem.Faults.Run

/-!
# The replay gate

The gate (`graph_gateway/replay_gate.py`) under interleaved calls of `replay_graph`, `startup_replay` and the
writers (`graph_gateway/gateway.py`). How a replay ends is left open: what the replayer does is
another module's.

* `closed_until_completed`: from the begin of a replay to a completion the graph refuses every write;
* `listed_until_superseded`: after a failure it is listed until another replay of it begins or completes.
-/

namespace PolicySystem

namespace ReplayGate

open Interleaved
open Std (ExtTreeSet ExtTreeMap)

/-! ## The gate -/

/-- `ReplayGate`. -/
structure Gate where
  incomplete : ExtTreeSet String := ∅
  failed : ExtTreeMap String Nat := ∅
  allPending : Bool := false
  released : ExtTreeSet String := ∅

/-- `GraphReplayGatedError`. -/
structure GraphReplayGatedError where
  graph : String
  position : Option Nat
  failed : Bool
  deriving DecidableEq

namespace Gate

variable (gate : Gate) (graph : String)

def begin : Gate :=
  { gate with incomplete := gate.incomplete.insert graph, failed := gate.failed.erase graph }

def complete : Gate :=
  { gate with incomplete := gate.incomplete.erase graph, failed := gate.failed.erase graph }

def fail (position : Nat) : Gate :=
  { gate with incomplete := gate.incomplete.erase graph, failed := gate.failed.insert graph position }

def beginAllPending : Gate := { gate with allPending := true, released := ∅ }

def release : Gate := { gate with released := gate.released.insert graph }

def endAllPending : Gate := { gate with allPending := false, released := ∅ }

/-- `_closed`. -/
def closed : Bool :=
  graph ∈ gate.incomplete || graph ∈ gate.failed || (gate.allPending && !decide (graph ∈ gate.released))

/-- `require_open`. -/
def requireOpen : Except GraphReplayGatedError Unit :=
  match gate.failed[graph]? with
  | some position => .error ⟨graph, some position, true⟩
  | none => if gate.closed graph then .error ⟨graph, none, false⟩ else .ok ()

end Gate

/-! ## The calls -/

/-- How the replayer leaves `replay_graph`. -/
inductive ReplayEnd where
  | completed
  /-- `GraphReplayError` at this position. -/
  | failed (position : Nat)
  /-- `GraphReplayGatedError`: the graph's record says an earlier replay failed. -/
  | refused (position : Option Nat)
  /-- `GraphReplayStoppedError`. -/
  | stopped
  /-- Postgres or FalkorDB could not be reached. -/
  | outage
  deriving DecidableEq

/-- `StartupAction`. -/
inductive StartupAction where
  | replay
  | resume
  | catchUp
  | untouched
  deriving DecidableEq

/-- A call in progress. -/
inductive Call where
  /-- `replay_graph` called by an operator, its gate begun. -/
  | replayGraph (graph : String)
  /-- `startup_replay`, before the log has said which graphs there are. -/
  | startupListing
  /-- `startup_replay`, with these graphs left to deal with. -/
  | startup (todo : List (String × StartupAction))
  /-- `replay_graph` within `startup_replay`. -/
  | startupReplay (graph : String) (todo : List (String × StartupAction))
  | returned
  deriving DecidableEq

/-- What the gateway keeps in memory about who may write. -/
structure Gateway where
  gate : Gate := {}
  blocked : ExtTreeSet String := ∅
  calls : List Call := []

/-- One step of one call. -/
inductive Event where
  /-- `hold_for_startup_replay`. -/
  | hold
  | startupBegins (c : Nat)
  | startupLists (c : Nat) (todo : List (String × StartupAction))
  /-- `_startup_graph` without a replay; `gated` when the catch-up did not succeed. -/
  | startupPasses (c : Nat) (graph : String) (gated : Bool)
  | startupEnds (c : Nat)
  | startupFails (c : Nat)
  | replayBegins (c : Nat) (graph : String)
  | replayEnds (c : Nat) (graph : String) (ending : ReplayEnd)
  /-- An apply that FalkorDB refused, or a swap it could not do. -/
  | blocks (graphs : List String)
  | unblocks (graphs : List String)
  deriving DecidableEq

def Gateway.moveTo (s : Gateway) (c : Nat) (call : Call) : Gateway :=
  { s with calls := s.calls.set c call }

/-- What `replay_graph` does to the gate when the replayer is done; only a `GraphReplayError` is caught. -/
def Gate.settle (gate : Gate) (graph : String) : ReplayEnd → Gate
  | .completed => gate.complete graph
  | .failed position => gate.fail graph position
  | .refused _ | .stopped | .outage => gate

/-- What `startup_replay` makes of a replay: the gate, and whether it goes on to the next graph. -/
def Gate.settleAtStartup (gate : Gate) (graph : String) (ending : ReplayEnd) : Gate × Bool :=
  match ending with
  | .completed => ((gate.settle graph ending).release graph, true)
  | .failed _ => (gate.settle graph ending, true)
  | .refused position => ((gate.settle graph ending).fail graph (position.getD 0), true)
  | .stopped | .outage => (gate.settle graph ending, false)

/-- One step, where it is enabled. -/
def step (s : Gateway) : Event → Option Gateway
  | .hold => some { s with gate := s.gate.beginAllPending }
  | .startupBegins c =>
    if c = s.calls.length then
      some { s with gate := s.gate.beginAllPending, calls := s.calls ++ [.startupListing] }
    else none
  | .startupLists c todo => if s.calls[c]? = some .startupListing then some (s.moveTo c (.startup todo)) else none
  | .startupPasses c graph gated =>
    match s.calls[c]? with
    | some (.startup ((next, action) :: todo)) =>
      if graph = next ∧ (action = .untouched ∧ gated = false ∨ action = .catchUp) then
        some { s.moveTo c (.startup todo) with gate := if gated then s.gate else s.gate.release graph }
      else none
    | _ => none
  | .startupEnds c =>
    if s.calls[c]? = some (.startup []) then some { s.moveTo c .returned with gate := s.gate.endAllPending } else none
  | .startupFails c =>
    match s.calls[c]? with
    | some .startupListing | some (.startup _) => some (s.moveTo c .returned)
    | _ => none
  | .replayBegins c graph =>
    if c = s.calls.length then some { s with gate := s.gate.begin graph, calls := s.calls ++ [.replayGraph graph] }
    else
      match s.calls[c]? with
      | some (.startup ((next, action) :: todo)) =>
        if graph = next ∧ (action = .replay ∨ action = .resume) then
          some { s.moveTo c (.startupReplay graph todo) with gate := s.gate.begin graph }
        else none
      | _ => none
  | .replayEnds c graph ending =>
    match s.calls[c]? with
    | some (.replayGraph current) =>
      if graph = current then some { s.moveTo c .returned with gate := s.gate.settle graph ending } else none
    | some (.startupReplay current todo) =>
      if graph = current then
        let (gate, goesOn) := s.gate.settleAtStartup graph ending
        some { s.moveTo c (if goesOn then .startup todo else .returned) with gate := gate }
      else none
    | _ => none
  | .blocks graphs => some { s with blocked := s.blocked.insertMany graphs }
  | .unblocks graphs => some { s with blocked := s.blocked.eraseMany graphs }

/-- `gated_graphs`. -/
def Gateway.gatedGraphs (s : Gateway) : List String :=
  (ExtTreeSet.ofList s.gate.failed.keys ∪ s.blocked).toList

/-- The calls that write, with the graphs whose gate they ask before anything else. -/
inductive WriteCall where
  | submitGroup (graph : String)
  | submitMultiGraphGroup (graphs : List String)
  | stampLegacyEdgeIdentity (graph : String)
  | submitGroupInTransaction (graph : String)
  | catchUp (graph : String)

def WriteCall.graphs : WriteCall → List String
  | submitGroup graph | stampLegacyEdgeIdentity graph | submitGroupInTransaction graph | catchUp graph => [graph]
  | submitMultiGraphGroup graphs => graphs

/-- What the gate answers a write call: `require_open` for each of its graphs in turn. -/
def Gateway.requireOpen (s : Gateway) (call : WriteCall) : Except GraphReplayGatedError Unit :=
  call.graphs.forM s.gate.requireOpen

/-- No write call on the graph is let through. -/
def Gateway.Refuses (s : Gateway) (graph : String) : Prop :=
  ∀ call : WriteCall, graph ∈ call.graphs → s.requireOpen call ≠ .ok ()

/-! ## What a step does to the gate -/

/-- Everything one event can do to the gate. -/
inductive Moves (gate : Gate) : Event → Gate → Prop where
  | keeps (e : Event) : Moves gate e gate
  | holds (e : Event) : Moves gate e gate.beginAllPending
  | releases (e : Event) (graph : String) : Moves gate e (gate.release graph)
  | ends (e : Event) : Moves gate e gate.endAllPending
  | begins (c : Nat) (graph : String) : Moves gate (.replayBegins c graph) (gate.begin graph)
  | completes (c : Nat) (graph : String) : Moves gate (.replayEnds c graph .completed) (gate.complete graph)
  | completesReleasing (c : Nat) (graph : String) :
    Moves gate (.replayEnds c graph .completed) ((gate.complete graph).release graph)
  | fails (c : Nat) (graph : String) (ending : ReplayEnd) (position : Nat) :
    Moves gate (.replayEnds c graph ending) (gate.fail graph position)

theorem settle_moves (gate : Gate) (c : Nat) (graph : String) (ending : ReplayEnd) :
    Moves gate (.replayEnds c graph ending) (gate.settle graph ending) := by
  cases ending with
  | completed => exact .completes c graph
  | failed position => exact .fails c graph _ position
  | refused position => exact .keeps _
  | stopped => exact .keeps _
  | outage => exact .keeps _

theorem settleAtStartup_moves (gate : Gate) (c : Nat) (graph : String) (ending : ReplayEnd) :
    Moves gate (.replayEnds c graph ending) (gate.settleAtStartup graph ending).1 := by
  cases ending with
  | completed => exact .completesReleasing c graph
  | failed position => exact .fails c graph _ position
  | refused position => exact .fails c graph _ (position.getD 0)
  | stopped => exact .keeps _
  | outage => exact .keeps _

/-- **Inversion.** Every step moves the gate in one of these ways. -/
theorem step_moves {s s' : Gateway} {e : Event} (h : step s e = some s') : Moves s.gate e s'.gate := by
  cases e with
  | hold =>
    cases h
    exact .holds _
  | startupBegins c =>
    simp only [step] at h
    split at h
    · cases h
      exact .holds _
    · cases h
  | startupLists c todo =>
    simp only [step] at h
    split at h
    · cases h
      exact .keeps _
    · cases h
  | startupPasses c graph gated =>
    simp only [step] at h
    split at h
    · split at h
      · cases h
        cases gated
        · exact .releases _ graph
        · exact .keeps _
      · cases h
    · cases h
  | startupEnds c =>
    simp only [step] at h
    split at h
    · cases h
      exact .ends _
    · cases h
  | startupFails c =>
    simp only [step] at h
    split at h
    · cases h
      exact .keeps _
    · cases h
      exact .keeps _
    · cases h
  | replayBegins c graph =>
    simp only [step] at h
    split at h
    · cases h
      exact .begins c graph
    · split at h
      · split at h
        · cases h
          exact .begins c graph
        · cases h
      · cases h
  | replayEnds c graph ending =>
    simp only [step] at h
    split at h
    · split at h
      · cases h
        exact settle_moves _ c graph ending
      · cases h
    · split at h
      · cases h
        exact settleAtStartup_moves _ c graph ending
      · cases h
    · cases h
  | blocks graphs =>
    cases h
    exact .keeps _
  | unblocks graphs =>
    cases h
    exact .keeps _

/-- A replay of the graph begins. -/
def Event.Begins (graph : String) (e : Event) : Prop := ∃ c, e = .replayBegins c graph

/-- A replay of the graph completes. -/
def Event.Completes (graph : String) (e : Event) : Prop := ∃ c, e = .replayEnds c graph .completed

/-- A replay of the graph fails. -/
def Event.Fails (graph : String) (e : Event) : Prop := ∃ c position, e = .replayEnds c graph (.failed position)

/-- Closed by a replay, whatever the startup hold says. -/
def Gate.Marked (gate : Gate) (graph : String) : Prop := graph ∈ gate.incomplete ∨ graph ∈ gate.failed

section Gates

variable {gate gate' : Gate} {graph : String} {e : Event}

theorem marked_begin : (gate.begin graph).Marked graph :=
  .inl ExtTreeSet.mem_insert_self

theorem Gate.Marked.moves (hm : gate.Marked graph) (h : Moves gate e gate') (he : ¬e.Completes graph) :
    gate'.Marked graph := by
  cases h with
  | keeps | holds | releases | ends => exact hm
  | begins c other =>
    by_cases hg : other = graph
    · subst hg
      exact marked_begin
    · rcases hm with hm | hm
      · exact .inl (ExtTreeSet.mem_insert.2 (.inr hm))
      · exact .inr (ExtTreeMap.mem_erase.2 ⟨by simpa using hg, hm⟩)
  | completes c other =>
    have hg : other ≠ graph := fun h => he ⟨c, by rw [h]⟩
    exact hm.imp (fun hm => ExtTreeSet.mem_erase.2 ⟨by simpa using hg, hm⟩)
      fun hm => ExtTreeMap.mem_erase.2 ⟨by simpa using hg, hm⟩
  | completesReleasing c other =>
    have hg : other ≠ graph := fun h => he ⟨c, by rw [h]⟩
    exact hm.imp (fun hm => ExtTreeSet.mem_erase.2 ⟨by simpa using hg, hm⟩)
      fun hm => ExtTreeMap.mem_erase.2 ⟨by simpa using hg, hm⟩
  | fails c other ending position =>
    by_cases hg : other = graph
    · subst hg
      exact .inr ExtTreeMap.mem_insert_self
    · rcases hm with hm | hm
      · exact .inl (ExtTreeSet.mem_erase.2 ⟨by simpa using hg, hm⟩)
      · exact .inr (ExtTreeMap.mem_insert.2 (.inr hm))

theorem mem_failed_moves (hm : graph ∈ gate.failed) (h : Moves gate e gate') (hb : ¬e.Begins graph)
    (he : ¬e.Completes graph) : graph ∈ gate'.failed := by
  cases h with
  | keeps | holds | releases | ends => exact hm
  | begins c other =>
    have hg : other ≠ graph := fun h => hb ⟨c, by rw [h]⟩
    exact ExtTreeMap.mem_erase.2 ⟨by simpa using hg, hm⟩
  | completes c other =>
    have hg : other ≠ graph := fun h => he ⟨c, by rw [h]⟩
    exact ExtTreeMap.mem_erase.2 ⟨by simpa using hg, hm⟩
  | completesReleasing c other =>
    have hg : other ≠ graph := fun h => he ⟨c, by rw [h]⟩
    exact ExtTreeMap.mem_erase.2 ⟨by simpa using hg, hm⟩
  | fails c other ending position => exact ExtTreeMap.mem_insert.2 (.inr hm)

/-- A marked graph is refused to every write call that names it. -/
theorem refuses_of_marked {s : Gateway} (hm : s.gate.Marked graph) : s.Refuses graph := by
  have hclosed : s.gate.requireOpen graph ≠ .ok () := by
    unfold Gate.requireOpen
    split
    · simp
    · rw [if_pos (by unfold Gate.closed; rcases hm with hm | hm <;> simp [hm])]
      simp
  intro call hcall hok
  unfold Gateway.requireOpen at hok
  -- the first refusal of the loop ends it
  have hall : ∀ graphs : List String, graphs.forM s.gate.requireOpen = .ok () →
      ∀ g ∈ graphs, s.gate.requireOpen g = .ok () := by
    intro graphs
    induction graphs with
    | nil => simp
    | cons g graphs ih =>
      intro h
      change (s.gate.requireOpen g >>= fun _ => graphs.forM s.gate.requireOpen) = .ok () at h
      cases hg : s.gate.requireOpen g with
      | error err =>
        rw [hg] at h
        cases h
      | ok u =>
        rw [hg] at h
        intro k hk
        rcases List.mem_cons.1 hk with rfl | hk
        · exact hg
        · exact ih h k hk
  exact hclosed (hall _ hok graph hcall)

theorem mem_gatedGraphs_of_failed {s : Gateway} (h : graph ∈ s.gate.failed) : graph ∈ s.gatedGraphs := by
  unfold Gateway.gatedGraphs
  rw [ExtTreeSet.mem_toList]
  refine ExtTreeSet.mem_union_iff.2 (.inl ?_)
  rw [ExtTreeSet.mem_ofList]
  simpa using ExtTreeMap.mem_keys.2 h

end Gates

/-! ## Over whole runs -/

section Runs

variable {s m : Gateway} {history : List Event} {graph : String}

/-- A marked graph stays marked over a run in which no replay of it completes. -/
theorem marked_after (hm : m.gate.Marked graph) (hrun : after step m history = some s)
    (hno : ∀ f ∈ history, ¬f.Completes graph) : s.gate.Marked graph :=
  after_induct (C := fun _ f => ¬f.Completes graph) (I := fun _ s => s.gate.Marked graph) hm
    (fun _ _ _ _ hI hC hs => hI.moves (step_moves hs) hC) (throughout_of_forall hno) hrun

/-- A graph whose replay failed stays so over a run in which no replay of it begins or completes. -/
theorem failed_after (hm : graph ∈ m.gate.failed) (hrun : after step m history = some s)
    (hno : ∀ f ∈ history, ¬f.Begins graph ∧ ¬f.Completes graph) : graph ∈ s.gate.failed :=
  after_induct (C := fun _ f => ¬f.Begins graph ∧ ¬f.Completes graph) (I := fun _ s => graph ∈ s.gate.failed) hm
    (fun _ _ _ _ hI hC hs => mem_failed_moves hI (step_moves hs) hC.1 hC.2) (throughout_of_forall hno) hrun

theorem marked_of_begins {c : Nat} (h : step m (.replayBegins c graph) = some s) : s.gate.Marked graph := by
  simp only [step] at h
  split at h
  · cases h
    exact marked_begin
  · split at h
    · split at h
      · cases h
        exact marked_begin
      · cases h
    · cases h

theorem failed_of_fails {c position : Nat} (h : step m (.replayEnds c graph (.failed position)) = some s) :
    graph ∈ s.gate.failed := by
  simp only [step] at h
  split at h
  · split at h
    · cases h
      exact ExtTreeMap.mem_insert_self
    · cases h
  · split at h
    · cases h
      exact ExtTreeMap.mem_insert_self
    · cases h
  · cases h

end Runs

end ReplayGate

end PolicySystem
