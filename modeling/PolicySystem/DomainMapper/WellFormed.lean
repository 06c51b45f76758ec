import PolicySystem.DomainMapper.Derivation

/-!
# The derived graph is well formed

Whatever the model answers. A registry maps the ids met to what stands under them, nodes are added with their entries,
and an answer is applied as a whole or not at all.

* `ObligationsSound`, `ObligationsSound.step`: what the Obligations of a run satisfy, Requirement by Requirement;
* `CapabilitiesSound`, `CapabilitiesSound.step`: the same of the Capabilities, Obligation by Obligation;
* `resolve_accepted`: a Capability that exists is attached only after an accepted verification;
* `derivation_well_formed`: **the whole derivation.**
-/

namespace PolicySystem.DomainMapper

open LastWins (under)

variable {rules : AnswerRules}

/-! ## Obligations -/

/-- What the Obligations of a run satisfy after the Requirements `done`. -/
structure ObligationsSound (rules : AnswerRules) (done : List RequirementTask) (s : DerivationState) : Prop where
  nodes : s.obligationNodes.map (·.id) = s.registry.map (·.id)
  has : s.hasEdges = s.registry.map fun e => ⟨e.roleNodeId, e.id⟩
  nodup : (s.registry.map (·.id)).Nodup
  minted : ∀ e ∈ s.registry, e.id = obligationId rules.toHashing e.roleNodeId e.text ∧
    (∃ task ∈ done, task.role.roleNodeId = e.roleNodeId) ∧ ∃ edge ∈ s.satisfiedByEdges, edge.obligationNodeId = e.id
  satisfied : ∀ edge ∈ s.satisfiedByEdges, ∃ task ∈ done, task.requirementId = edge.requirementId ∧
    ∃ e ∈ s.registry, e.id = edge.obligationNodeId ∧ e.roleNodeId = task.role.roleNodeId
  partition : (s.satisfiedByEdges.map (·.requirementId) ++ s.unmatchedRequirementIds).Perm (done.map (·.requirementId))

theorem ObligationsSound.initial : ObligationsSound rules [] {} where
  nodes := rfl
  has := rfl
  nodup := List.nodup_nil
  minted _ h := by cases h
  satisfied _ h := by cases h
  partition := .nil

variable {done : List RequirementTask} {task : RequirementTask} {s s' : DerivationState}

/-- What one turn does. -/
theorem processRequirement_cases {completions : ℕ → Completion} {k : ℕ}
    (h : processRequirement rules completions k s task = some s') :
    s' = markUnmatched task.requirementId s ∨
      ∃ proposed confidence, s' = recordObligation rules task.role.roleNodeId task.requirementId proposed confidence s := by
  unfold processRequirement at h
  split at h
  · cases h
  · exact .inl (Option.some.inj h).symm
  · split at h
    · exact .inr ⟨_, _, (Option.some.inj h).symm⟩
    · exact .inl (Option.some.inj h).symm

theorem ObligationsSound.markUnmatched (hs : ObligationsSound rules done s) :
    ObligationsSound rules (done ++ [task]) (markUnmatched task.requirementId s) where
  nodes := hs.nodes
  has := hs.has
  nodup := hs.nodup
  minted e he := by
    obtain ⟨hid, ⟨found, hfound, hrole⟩, hedge⟩ := hs.minted e he
    exact ⟨hid, ⟨found, List.mem_append_left _ hfound, hrole⟩, hedge⟩
  satisfied edge hedge := by
    obtain ⟨found, hfound, hrest⟩ := hs.satisfied edge hedge
    exact ⟨found, List.mem_append_left _ hfound, hrest⟩
  partition := by
    rw [List.map_append, List.map_singleton]
    simp only [DomainMapper.markUnmatched]
    rw [← List.append_assoc]
    exact hs.partition.append_right _

/-- The registry after a duty text: as it was where its id is known, with one more entry else. -/
theorem resolveObligation_cases (hash : IdHash rules.toHashing) (hs : ObligationsSound rules done s) {text : String}
    (confidence : Double) (hcolon : ':' ∉ task.role.roleNodeId.toList)
    (hdone : ∀ t ∈ done, ':' ∉ t.role.roleNodeId.toList) {id : String}
    (hid : id = obligationId rules.toHashing task.role.roleNodeId text) :
    (∃ e ∈ s.registry, e.id = id ∧ e.roleNodeId = task.role.roleNodeId ∧
        resolveObligation task.role.roleNodeId id text confidence s = s) ∨
      id ∉ s.registry.map (·.id) ∧ resolveObligation task.role.roleNodeId id text confidence s =
        { s with
          registry := s.registry ++ [⟨id, text, task.role.roleNodeId⟩]
          obligationNodes := s.obligationNodes ++ [⟨id, text, confidence⟩]
          hasEdges := s.hasEdges ++ [⟨task.role.roleNodeId, id⟩] } := by
  unfold resolveObligation
  cases hunder : under ObligationEntry.id id s.registry with
  | some e =>
    obtain ⟨he, heid⟩ := LastWins.mem_of_under hunder
    obtain ⟨hmint, ⟨t, ht, hrole⟩, -⟩ := hs.minted e he
    have hsame := obligationId_role hash (hrole ▸ hdone t ht) hcolon (hmint.symm.trans (heid.trans hid))
    exact .inl ⟨e, he, heid, hsame.1, rfl⟩
  | none => exact .inr ⟨FirstWins.under_eq_none.1 hunder, rfl⟩

theorem ObligationsSound.recordObligation (hash : IdHash rules.toHashing) (hs : ObligationsSound rules done s)
    (hcolon : ':' ∉ task.role.roleNodeId.toList) (hdone : ∀ t ∈ done, ':' ∉ t.role.roleNodeId.toList) (text : String)
    (confidence : Double) :
    ObligationsSound rules (done ++ [task])
      (recordObligation rules task.role.roleNodeId task.requirementId text confidence s) := by
  have hlast : task ∈ done ++ [task] := by simp
  have hpartition : ∀ id, ((s.satisfiedByEdges ++ [(⟨task.requirementId, id⟩ : RequirementSatisfiedByEdge)]).map
      (·.requirementId) ++ s.unmatchedRequirementIds).Perm ((done ++ [task]).map (·.requirementId)) := by
    intro id
    rw [List.map_append, List.map_append, List.map_singleton, List.map_singleton, List.append_assoc]
    refine (List.perm_append_comm.append_left _).trans ?_
    rw [← List.append_assoc]
    exact hs.partition.append_right _
  unfold DomainMapper.recordObligation
  generalize hid : obligationId rules.toHashing task.role.roleNodeId text = id
  rcases resolveObligation_cases hash hs confidence hcolon hdone hid.symm with
    ⟨e, he, heid, herole, heq⟩ | ⟨hnew, heq⟩
  · simp only [heq]
    refine ⟨hs.nodes, hs.has, hs.nodup, ?_, ?_, hpartition id⟩
    · intro found hfound
      obtain ⟨hmint, ⟨t, ht, hrole⟩, edge, hedge, hends⟩ := hs.minted found hfound
      exact ⟨hmint, ⟨t, List.mem_append_left _ ht, hrole⟩, edge, List.mem_append_left _ hedge, hends⟩
    · intro edge hedge
      rcases List.mem_append.1 hedge with hedge | hedge
      · obtain ⟨t, ht, hrest⟩ := hs.satisfied edge hedge
        exact ⟨t, List.mem_append_left _ ht, hrest⟩
      · obtain rfl := List.mem_singleton.1 hedge
        exact ⟨task, hlast, rfl, e, he, heid, herole⟩
  · simp only [heq]
    refine ⟨?_, ?_, ?_, ?_, ?_, hpartition id⟩
    · rw [List.map_append, List.map_append, hs.nodes]
      rfl
    · rw [List.map_append, ← hs.has]
      rfl
    · rw [List.map_append, List.map_singleton, ← List.concat_eq_append]
      exact hs.nodup.concat hnew
    · intro found hfound
      rcases List.mem_append.1 hfound with hfound | hfound
      · obtain ⟨hmint, ⟨t, ht, hrole⟩, edge, hedge, hends⟩ := hs.minted found hfound
        exact ⟨hmint, ⟨t, List.mem_append_left _ ht, hrole⟩, edge, List.mem_append_left _ hedge, hends⟩
      · obtain rfl := List.mem_singleton.1 hfound
        exact ⟨hid.symm, ⟨task, hlast, rfl⟩, _, List.mem_append_right _ (List.mem_singleton_self _), rfl⟩
    · intro edge hedge
      rcases List.mem_append.1 hedge with hedge | hedge
      · obtain ⟨t, ht, hreq, e, he, hrest⟩ := hs.satisfied edge hedge
        exact ⟨t, List.mem_append_left _ ht, hreq, e, List.mem_append_left _ he, hrest⟩
      · obtain rfl := List.mem_singleton.1 hedge
        exact ⟨task, hlast, rfl, _, List.mem_append_right _ (List.mem_singleton_self _), rfl, rfl⟩

/-- **The Obligations of every run are sound.** -/
theorem deriveObligations_sound (hash : IdHash rules.toHashing) {completions : ℕ → Completion}
    {roles : List RoleRequirements} (hcolon : ∀ t ∈ tasks roles, ':' ∉ t.role.roleNodeId.toList)
    (h : deriveObligations rules completions roles = some s) : ObligationsSound rules (tasks roles) s := by
  have hall : (∀ t ∈ tasks roles, ':' ∉ t.role.roleNodeId.toList) → ObligationsSound rules (tasks roles) s := by
    refine Loop.turns_invariant (P := fun done s => (∀ t ∈ done, ':' ∉ t.role.roleNodeId.toList) →
      ObligationsSound rules done s) (fun _ => ObligationsSound.initial) ?_ h
    intro done task s s' _ hs hstep hfree
    have hdone : ∀ t ∈ done, ':' ∉ t.role.roleNodeId.toList := fun t ht => hfree t (List.mem_append_left _ ht)
    rcases processRequirement_cases hstep with rfl | ⟨proposed, confidence, rfl⟩
    · exact (hs hdone).markUnmatched
    · exact (hs hdone).recordObligation hash (hfree task (by simp)) hdone proposed confidence
  exact hall hcolon

/-! ## Capabilities -/

section Capabilities

variable {obligation : String × String} {met : List (String × String)} {c c' : CapabilityDerivationState}
  {registry : List CapabilityEntry} {answers : ObligationAnswers} {decisions : List CapabilityDecision}

/-- The Capabilities an Obligation requires, edge by edge. -/
def requiresOf (c : CapabilityDerivationState) (obligationNodeId : String) : List String :=
  (c.requiresEdges.filter (·.obligationNodeId = obligationNodeId)).map (·.capabilityNodeId)

/-- The decision is a proposal of the answer, and its verification accepted it. -/
def Accepted (rules : AnswerRules) (registry : List CapabilityEntry) (answers : ObligationAnswers)
    (obligationNodeId : String) (decision : CapabilityDecision) : Prop :=
  ∃ proposed j, parseCapabilityResponse rules answers.answer obligationNodeId registry = .ok proposed ∧
    proposed[j]? = some decision ∧ parseCapabilityReuseVerdict rules (answers.verification j) = .ok .accept

/-- The Obligation has all edges of its answer, to the Capabilities there were only as accepted, or it has none and is
unmatched. -/
def Answered (rules : AnswerRules) (registry : List CapabilityEntry) (answers : ObligationAnswers)
    (obligationNodeId : String) (c : CapabilityDerivationState) : Prop :=
  (∃ decisions, resolveDecisions rules obligationNodeId registry answers = .ok decisions ∧
    requiresOf c obligationNodeId = decisions.map (·.capabilityNodeId) ∧
    obligationNodeId ∉ c.unmatchedObligationIds ∧
    ∀ d ∈ decisions, d.capabilityNodeId ∈ registry.map (·.id) → Accepted rules registry answers obligationNodeId d) ∨
  resolveDecisions rules obligationNodeId registry answers = .error .malformed ∧ requiresOf c obligationNodeId = [] ∧
    c.unmatchedObligationIds.count obligationNodeId = 1

theorem mem_mapM_ok {α β : Type} {f : α → Except Failure β} {xs : List α} {ys : List β} (h : xs.mapM f = .ok ys) :
    ∀ y ∈ ys, ∃ x ∈ xs, f x = .ok y := by
  induction xs generalizing ys with
  | nil =>
    cases h
    simp
  | cons x xs ih =>
    rw [List.mapM_cons] at h
    cases hx : f x with
    | error e => rw [hx] at h; cases h
    | ok z =>
      cases hxs : xs.mapM f with
      | error e => rw [hx, hxs] at h; cases h
      | ok zs =>
        rw [hx, hxs] at h
        cases h
        intro y hy
        rcases List.mem_cons.1 hy with rfl | hy
        · exact ⟨x, by simp, hx⟩
        · obtain ⟨w, hw, heq⟩ := ih hxs y hy
          exact ⟨w, List.mem_cons_of_mem _ hw, heq⟩

theorem bind_ok {α β : Type} {x : Except Failure α} {f : α → Except Failure β} {b : β} (h : x >>= f = .ok b) :
    ∃ a, x = .ok a ∧ f a = .ok b := by
  cases x with
  | error e => cases h
  | ok a => exact ⟨a, rfl, h⟩

/-- A Capability that is no reuse is not registered. -/
theorem resolveCapability_new {item : List (String × PyValue)} {entry : CapabilityEntry}
    (h : resolveCapability rules item registry = .ok (entry, false)) : entry.id ∉ registry.map (·.id) := by
  unfold resolveCapability at h
  split at h
  · cases h
  · unfold mintCapability at h
    split at h
    · cases h
    · simp only at h
      split at h
      · cases h
      · rename_i hnone
        cases h
        exact FirstWins.under_eq_none.1 hnone

theorem buildCapabilityDecision_new {id : String} {item : PyValue} {d : CapabilityDecision}
    (h : buildCapabilityDecision rules id registry item = .ok d) (hnew : d.isReuse = false) :
    d.capabilityNodeId ∉ registry.map (·.id) := by
  unfold buildCapabilityDecision at h
  split at h
  · obtain ⟨⟨entry, isReuse⟩, hentry, h⟩ := bind_ok h
    obtain ⟨confidence, -, h⟩ := bind_ok h
    cases h
    obtain rfl : isReuse = false := hnew
    exact resolveCapability_new hentry
  · cases h

/-- **A Capability that exists is attached only after an accepted verification.** -/
theorem resolve_accepted {id : String} (h : resolveDecisions rules id registry answers = .ok decisions) :
    ∀ d ∈ decisions, d.capabilityNodeId ∈ registry.map (·.id) → Accepted rules registry answers id d := by
  intro d hd hregistered
  obtain ⟨proposed, hproposed, h⟩ := bind_ok h
  obtain ⟨⟨p, j⟩, hp, heq⟩ := mem_mapM_ok h d hd
  have hj : proposed[j]? = some p := by simpa using List.mem_zipIdx_iff_getElem?.1 hp
  simp only at heq
  split at heq
  · obtain ⟨verdict, hverdict, heq⟩ := bind_ok heq
    cases verdict with
    | accept =>
      cases heq
      exact ⟨proposed, j, hproposed, hj, hverdict⟩
    | reject newName newDescription confidence =>
      simp only [mintVerifierCapability] at heq
      split at heq
      · cases heq
      · rename_i hnone
        cases heq
        exact absurd hregistered (FirstWins.under_eq_none.1 hnone)
  · rename_i hnew
    cases heq
    obtain ⟨items, -, hproposed⟩ := bind_ok hproposed
    obtain ⟨item, -, hitem⟩ := mem_mapM_ok hproposed d (List.mem_of_getElem? hj)
    exact absurd hregistered (buildCapabilityDecision_new hitem (by simpa using hnew))

/-- What the Capabilities of a run satisfy after the Obligations `met`. -/
structure CapabilitiesSound (met : List (String × String)) (c : CapabilityDerivationState) : Prop where
  nodes : c.capabilityNodes.map (·.id) = c.registry.map (·.id)
  nodup : (c.registry.map (·.id)).Nodup
  required : ∀ e ∈ c.registry, ∃ edge ∈ c.requiresEdges, edge.capabilityNodeId = e.id
  ends : ∀ edge ∈ c.requiresEdges, edge.obligationNodeId ∈ met.map Prod.fst ∧
    edge.capabilityNodeId ∈ c.registry.map (·.id)
  unmatched : ∀ id ∈ c.unmatchedObligationIds, id ∈ met.map Prod.fst

theorem CapabilitiesSound.initial : CapabilitiesSound [] {} where
  nodes := rfl
  nodup := List.nodup_nil
  required _ h := by cases h
  ends _ h := by cases h
  unmatched _ h := by cases h

theorem CapabilitiesSound.mono {more : List (String × String)} (hc : CapabilitiesSound met c) :
    CapabilitiesSound (met ++ more) c where
  nodes := hc.nodes
  nodup := hc.nodup
  required := hc.required
  ends edge hedge := by
    refine ⟨?_, (hc.ends edge hedge).2⟩
    rw [List.map_append]
    exact List.mem_append_left _ (hc.ends edge hedge).1
  unmatched id hid := by
    rw [List.map_append]
    exact List.mem_append_left _ (hc.unmatched id hid)

theorem registerCapability_cases (d : CapabilityDecision) :
    (d.capabilityNodeId ∈ c.registry.map (·.id) ∧ registerCapability d c = c) ∨
      d.capabilityNodeId ∉ c.registry.map (·.id) ∧ registerCapability d c =
        { c with
          registry := c.registry ++ [⟨d.capabilityNodeId, d.name, d.description⟩]
          capabilityNodes := c.capabilityNodes ++ [toCapabilityNode d] } := by
  unfold registerCapability
  cases hunder : under CapabilityEntry.id d.capabilityNodeId c.registry with
  | some e =>
    obtain ⟨he, hid⟩ := LastWins.mem_of_under hunder
    exact .inl ⟨hid ▸ List.mem_map_of_mem he, rfl⟩
  | none => exact .inr ⟨FirstWins.under_eq_none.1 hunder, rfl⟩

theorem CapabilitiesSound.apply (hc : CapabilitiesSound met c) (hmet : obligation.1 ∈ met.map Prod.fst)
    (d : CapabilityDecision) : CapabilitiesSound met (applyDecision obligation.1 c d) := by
  unfold applyDecision
  rcases registerCapability_cases (c := c) d with ⟨hold, heq⟩ | ⟨hnew, heq⟩
  · simp only [heq]
    refine ⟨hc.nodes, hc.nodup, ?_, ?_, hc.unmatched⟩
    · intro e he
      obtain ⟨edge, hedge, hcap⟩ := hc.required e he
      exact ⟨edge, List.mem_append_left _ hedge, hcap⟩
    · intro edge hedge
      rcases List.mem_append.1 hedge with hedge | hedge
      · exact hc.ends edge hedge
      · obtain rfl := List.mem_singleton.1 hedge
        exact ⟨hmet, hold⟩
  · simp only [heq]
    have hgrow : ∀ id ∈ c.registry.map (·.id), id ∈
        (c.registry ++ [(⟨d.capabilityNodeId, d.name, d.description⟩ : CapabilityEntry)]).map (·.id) := by
      intro id hid
      rw [List.map_append]
      exact List.mem_append_left _ hid
    refine ⟨?_, ?_, ?_, ?_, hc.unmatched⟩
    · rw [List.map_append, List.map_append, hc.nodes]
      rfl
    · rw [List.map_append, List.map_singleton, ← List.concat_eq_append]
      exact hc.nodup.concat hnew
    · intro e he
      rcases List.mem_append.1 he with he | he
      · obtain ⟨edge, hedge, hcap⟩ := hc.required e he
        exact ⟨edge, List.mem_append_left _ hedge, hcap⟩
      · obtain rfl := List.mem_singleton.1 he
        exact ⟨_, List.mem_append_right _ (List.mem_singleton_self _), rfl⟩
    · intro edge hedge
      rcases List.mem_append.1 hedge with hedge | hedge
      · exact ⟨(hc.ends edge hedge).1, hgrow _ (hc.ends edge hedge).2⟩
      · obtain rfl := List.mem_singleton.1 hedge
        exact ⟨hmet, by simp⟩

/-- An answer is applied edge by edge. -/
theorem applied_edges : (decisions.foldl (applyDecision obligation.1) c).requiresEdges =
      c.requiresEdges ++ decisions.map (fun d => ⟨obligation.1, d.capabilityNodeId⟩) ∧
    (decisions.foldl (applyDecision obligation.1) c).unmatchedObligationIds = c.unmatchedObligationIds := by
  induction decisions generalizing c with
  | nil => exact ⟨(List.append_nil _).symm, rfl⟩
  | cons d ds ih =>
    have hone : (applyDecision obligation.1 c d).requiresEdges = c.requiresEdges ++ [⟨obligation.1, d.capabilityNodeId⟩] ∧
        (applyDecision obligation.1 c d).unmatchedObligationIds = c.unmatchedObligationIds := by
      unfold applyDecision
      rcases registerCapability_cases (c := c) d with ⟨-, heq⟩ | ⟨-, heq⟩ <;> simp only [heq, and_self]
    rw [List.foldl_cons, (ih (c := applyDecision obligation.1 c d)).1, (ih (c := applyDecision obligation.1 c d)).2,
      hone.1, hone.2, List.append_assoc]
    exact ⟨rfl, rfl⟩

theorem CapabilitiesSound.applyAll (hc : CapabilitiesSound met c) (hmet : obligation.1 ∈ met.map Prod.fst) :
    CapabilitiesSound met (decisions.foldl (applyDecision obligation.1) c) := by
  induction decisions generalizing c with
  | nil => exact hc
  | cons d ds ih => exact ih (hc.apply hmet d)

/-- What one turn does: nothing but a report, or the whole answer. -/
theorem processObligation_cases {completions : ℕ → ObligationAnswers} {k : ℕ}
    (h : processObligation rules completions k c obligation = some c') :
    (resolveDecisions rules obligation.1 c.registry (completions k) = .error .malformed ∧
        c' = markCapabilityUnmatched obligation.1 c) ∨
      ∃ decisions, resolveDecisions rules obligation.1 c.registry (completions k) = .ok decisions ∧
        c' = decisions.foldl (applyDecision obligation.1) c := by
  unfold processObligation at h
  split at h
  · cases h
  · rename_i heq
    exact .inl ⟨heq, (Option.some.inj h).symm⟩
  · rename_i decisions heq
    exact .inr ⟨decisions, heq, (Option.some.inj h).symm⟩

theorem CapabilitiesSound.step {completions : ℕ → ObligationAnswers} {k : ℕ} (hc : CapabilitiesSound met c)
    (h : processObligation rules completions k c obligation = some c') : CapabilitiesSound (met ++ [obligation]) c' := by
  have hmet : obligation.1 ∈ (met ++ [obligation]).map Prod.fst := List.mem_map_of_mem (by simp)
  rcases processObligation_cases h with ⟨-, rfl⟩ | ⟨decisions, -, rfl⟩
  · have hmono : CapabilitiesSound (met ++ [obligation]) c := hc.mono
    refine ⟨hmono.nodes, hmono.nodup, hmono.required, hmono.ends, fun id hid => ?_⟩
    rcases List.mem_append.1 hid with hid | hid
    · exact hmono.unmatched id hid
    · obtain rfl := List.mem_singleton.1 hid
      exact hmet
  · exact hc.mono.applyAll hmet

/-- The turn of one Obligation answers it. -/
theorem answered_of_step {completions : ℕ → ObligationAnswers} {k : ℕ} (hc : CapabilitiesSound met c)
    (hnew : obligation.1 ∉ met.map Prod.fst) (h : processObligation rules completions k c obligation = some c') :
    Answered rules c.registry (completions k) obligation.1 c' := by
  have hnone : requiresOf c obligation.1 = [] := by
    unfold requiresOf
    rw [List.map_eq_nil_iff, List.filter_eq_nil_iff]
    intro edge hedge heq
    exact hnew (of_decide_eq_true heq ▸ (hc.ends edge hedge).1)
  have hmissing : obligation.1 ∉ c.unmatchedObligationIds := fun hmem => hnew (hc.unmatched _ hmem)
  rcases processObligation_cases h with ⟨herror, rfl⟩ | ⟨decisions, hok, rfl⟩
  · refine .inr ⟨herror, hnone, ?_⟩
    change (c.unmatchedObligationIds ++ [obligation.1]).count obligation.1 = 1
    rw [List.count_append, List.count_eq_zero.2 hmissing, List.count_singleton_self]
  · refine .inl ⟨decisions, hok, ?_, ?_, resolve_accepted hok⟩
    · unfold requiresOf
      rw [applied_edges.1, List.filter_append, List.map_append]
      unfold requiresOf at hnone
      rw [hnone, List.nil_append, List.filter_eq_self.2, List.map_map]
      · rfl
      · intro edge hedge
        obtain ⟨d, -, rfl⟩ := List.mem_map.1 hedge
        exact decide_eq_true rfl
    · rw [applied_edges.2]
      exact hmissing

/-- The turn of another Obligation leaves the edges and the report of one alone. -/
theorem requiresOf_step {completions : ℕ → ObligationAnswers} {k : ℕ} {id : String} (hid : obligation.1 ≠ id)
    (h : processObligation rules completions k c obligation = some c') :
    requiresOf c' id = requiresOf c id ∧ c'.unmatchedObligationIds.count id = c.unmatchedObligationIds.count id := by
  rcases processObligation_cases h with ⟨-, rfl⟩ | ⟨decisions, -, rfl⟩
  · refine ⟨rfl, ?_⟩
    change (c.unmatchedObligationIds ++ [obligation.1]).count id = _
    rw [List.count_append, List.count_singleton, if_neg (by simpa using hid), Nat.add_zero]
  · have hnone : (decisions.map fun d => (⟨obligation.1, d.capabilityNodeId⟩ : CapabilityRequiresEdge)).filter
        (·.obligationNodeId = id) = [] := by
      rw [List.filter_eq_nil_iff]
      intro edge hedge heq
      obtain ⟨d, -, rfl⟩ := List.mem_map.1 hedge
      exact hid (of_decide_eq_true heq)
    refine ⟨?_, by rw [applied_edges.2]⟩
    unfold requiresOf
    rw [applied_edges.1, List.filter_append, hnone, List.append_nil]

theorem Answered.step {completions : ℕ → ObligationAnswers} {k : ℕ} {id : String} (hid : obligation.1 ≠ id)
    (ha : Answered rules registry answers id c) (h : processObligation rules completions k c obligation = some c') :
    Answered rules registry answers id c' := by
  obtain ⟨hedges, hcount⟩ := requiresOf_step hid h
  rcases ha with ⟨decisions, hok, hrequires, hmissing, haccepted⟩ | ⟨herror, hnone, hone⟩
  · refine .inl ⟨decisions, hok, hedges.trans hrequires, ?_, haccepted⟩
    rw [← List.count_eq_zero] at hmissing ⊢
    exact hcount.trans hmissing
  · exact .inr ⟨herror, hedges.trans hnone, hcount.trans hone⟩

/-- **The Capabilities of every run are sound, and every Obligation is answered** from the registry its turn began with. -/
theorem deriveCapabilities_sound {completions : ℕ → ObligationAnswers} {obligations : List ObligationNode}
    (h : deriveCapabilities rules completions obligations = some c) :
    CapabilitiesSound (distinctObligations obligations) c ∧
      ∀ k o, (distinctObligations obligations)[k]? = some o → ∃ before,
        Loop.turns (processObligation rules completions) {} ((distinctObligations obligations).take k) = some before ∧
        Answered rules before.registry (completions k) o.1 c := by
  have hnodup : ((distinctObligations obligations).map Prod.fst).Nodup := FirstWins.nodup_collect
  unfold deriveCapabilities at h
  generalize distinctObligations obligations = os at h hnodup
  refine Loop.turns_invariant (P := fun met c => (met.map Prod.fst).Nodup → CapabilitiesSound met c ∧
    ∀ k o, met[k]? = some o → ∃ before,
      Loop.turns (processObligation rules completions) {} (met.take k) = some before ∧
      Answered rules before.registry (completions k) o.1 c) ?_ ?_ h hnodup
  · intro _
    refine ⟨CapabilitiesSound.initial, fun k o hk => ?_⟩
    rw [List.getElem?_nil] at hk
    cases hk
  · intro met obligation c c' hrun hmet hstep hdistinct
    rw [List.map_append, List.map_singleton, List.nodup_append] at hdistinct
    obtain ⟨hsound, hall⟩ := hmet hdistinct.1
    have hnew : obligation.1 ∉ met.map Prod.fst := fun hmem =>
      hdistinct.2.2 _ hmem _ (List.mem_singleton_self _) rfl
    refine ⟨hsound.step hstep, fun k o hk => ?_⟩
    rcases Nat.lt_trichotomy k met.length with hlt | heq | hgt
    · rw [List.getElem?_append_left hlt] at hk
      obtain ⟨before, hbefore, hanswered⟩ := hall k o hk
      rw [List.take_append_of_le_length (Nat.le_of_lt hlt)]
      have ho : obligation.1 ≠ o.1 := fun heq => hnew (heq ▸ List.mem_map_of_mem (List.mem_of_getElem? hk))
      exact ⟨before, hbefore, hanswered.step ho hstep⟩
    · subst heq
      rw [List.getElem?_concat_length] at hk
      obtain rfl := Option.some.inj hk
      rw [List.take_left]
      exact ⟨c, hrun, answered_of_step hsound hnew hstep⟩
    · rw [List.getElem?_eq_none (by rw [List.length_append, List.length_singleton]; omega)] at hk
      cases hk

end Capabilities

/-! ## The whole derivation -/

/-- The derived graph is well formed. -/
structure WellFormed (rules : AnswerRules) (roles : List RoleRequirements) (answers : ℕ → ObligationAnswers)
    (d : Derivation) : Prop where
  /-- Obligation ids are distinct. -/
  obligations : (d.obligations.obligationNodes.map (·.id)).Nodup
  /-- An Obligation has one `HAS` edge, from the Role of the Requirements that satisfy it, and there is one. -/
  has : ∀ o ∈ d.obligations.obligationNodes, ∃ role ∈ roles,
    d.obligations.hasEdges.filter (·.obligationNodeId = o.id) = [⟨role.roleNodeId, o.id⟩] ∧
    (∃ edge ∈ d.obligations.satisfiedByEdges, edge.obligationNodeId = o.id) ∧
    ∀ edge ∈ d.obligations.satisfiedByEdges, edge.obligationNodeId = o.id →
      ∀ task ∈ tasks roles, task.requirementId = edge.requirementId → task.role.roleNodeId = role.roleNodeId
  /-- A Requirement is satisfied or unmatched, once. -/
  partition : ∀ task ∈ tasks roles,
    (d.obligations.satisfiedByEdges.map (·.requirementId) ++ d.obligations.unmatchedRequirementIds).count
      task.requirementId = 1
  hasEnds : ∀ edge ∈ d.obligations.hasEdges, (∃ role ∈ roles, role.roleNodeId = edge.roleNodeId) ∧
    edge.obligationNodeId ∈ d.obligations.obligationNodes.map (·.id)
  satisfiedByEnds : ∀ edge ∈ d.obligations.satisfiedByEdges,
    (∃ task ∈ tasks roles, task.requirementId = edge.requirementId) ∧
      edge.obligationNodeId ∈ d.obligations.obligationNodes.map (·.id)
  requiresEnds : ∀ edge ∈ d.capabilities.requiresEdges,
    edge.obligationNodeId ∈ d.obligations.obligationNodes.map (·.id) ∧
      edge.capabilityNodeId ∈ d.capabilities.capabilityNodes.map (·.id)
  /-- The `k`-th distinct Obligation has all edges of its answer, where a Capability of the registry before it is
  attached only as its verification accepted; or it has none and is reported. -/
  answered : ∀ k o, (distinctObligations d.obligations.obligationNodes)[k]? = some o → ∃ before,
    Loop.turns (processObligation rules answers) {} ((distinctObligations d.obligations.obligationNodes).take k) =
      some before ∧ Answered rules before.registry (answers k) o.1 d.capabilities
  capabilities : (d.capabilities.capabilityNodes.map (·.id)).Nodup
  required : ∀ node ∈ d.capabilities.capabilityNodes, ∃ edge ∈ d.capabilities.requiresEdges,
    edge.capabilityNodeId = node.id

theorem filter_key {α β : Type} [DecidableEq β] {key : α → β} {xs : List α} (hnodup : (xs.map key).Nodup) {x : α}
    (hx : x ∈ xs) : xs.filter (fun y => key y = key x) = [x] := by
  induction xs with
  | nil => cases hx
  | cons y xs ih =>
    rw [List.map_cons, List.nodup_cons] at hnodup
    have hout : ∀ z, key z = key y → z ∉ xs := fun z hz hmem => hnodup.1 (hz ▸ List.mem_map_of_mem hmem)
    rcases List.mem_cons.1 hx with rfl | hx
    · rw [List.filter_cons_of_pos (by simp), List.filter_eq_nil_iff.2]
      intro z hz heq
      exact hout z (of_decide_eq_true heq) hz
    · rw [List.filter_cons_of_neg, ih hnodup.2 hx]
      intro heq
      exact hout x (of_decide_eq_true heq).symm hx

/-- **The derived graph is well formed whatever the model answers**: for all completions, over Roles whose ids
`role_id` made and Requirements with distinct ids. -/
theorem derivation_well_formed (rules : AnswerRules) (hash : IdHash rules.toHashing) (roles : List RoleRequirements)
    (completions : ℕ → Completion) (answers : ℕ → ObligationAnswers) (d : Derivation)
    (hroles : ∀ role ∈ roles, ∃ name rid, role.roleNodeId = roleId rules.toHashing name rid)
    (hdistinct : ((tasks roles).map (·.requirementId)).Nodup)
    (h : deriveObligationsAndCapabilities rules completions answers roles = some d) :
    WellFormed rules roles answers d := by
  obtain ⟨s, hs, h⟩ := Option.bind_eq_some_iff.1 h
  obtain ⟨c, hc, h⟩ := Option.bind_eq_some_iff.1 h
  cases h
  have hrole : ∀ task ∈ tasks roles, task.role ∈ roles := by
    intro task htask
    obtain ⟨role, hrole, htask⟩ := List.mem_flatMap.1 htask
    obtain ⟨r, -, rfl⟩ := List.mem_map.1 htask
    exact hrole
  have hcolon : ∀ task ∈ tasks roles, ':' ∉ task.role.roleNodeId.toList := by
    intro task htask
    obtain ⟨name, rid, heq⟩ := hroles _ (hrole task htask)
    rw [heq]
    exact colon_not_mem_roleId hash name rid
  have hsound := deriveObligations_sound hash hcolon hs
  obtain ⟨hcaps, hanswered⟩ := deriveCapabilities_sound hc
  have hentry : ∀ id ∈ s.registry.map (·.id), id ∈ s.obligationNodes.map (·.id) := fun id hid => hsound.nodes ▸ hid
  have hdistinctIds : ∀ id ∈ (distinctObligations s.obligationNodes).map Prod.fst, id ∈ s.obligationNodes.map (·.id) := by
    intro id hid
    have hmem := FirstWins.mem_keys_collect.1 hid
    rwa [List.map_map] at hmem
  have hsame : ∀ task ∈ tasks roles, ∀ other ∈ tasks roles, task.requirementId = other.requirementId → task = other :=
    fun task htask other hother heq => List.inj_on_of_nodup_map hdistinct htask hother heq
  refine ⟨hsound.nodes ▸ hsound.nodup, ?_, ?_, ?_, ?_, ?_, hanswered, hcaps.nodes ▸ hcaps.nodup, ?_⟩
  · intro o ho
    have hregistered : o.id ∈ s.registry.map (·.id) := hsound.nodes ▸ List.mem_map_of_mem ho
    obtain ⟨e, he, heid⟩ := List.mem_map.1 hregistered
    obtain ⟨-, ⟨task, htask, htaskRole⟩, edge, hedge, hends⟩ := hsound.minted e he
    have hfilter : s.hasEdges.filter (·.obligationNodeId = o.id) = [⟨e.roleNodeId, e.id⟩] := by
      rw [hsound.has, List.filter_map, ← heid]
      exact congrArg (List.map _) (filter_key hsound.nodup he)
    refine ⟨task.role, hrole task htask, ?_, ⟨edge, hedge, hends.trans heid⟩, ?_⟩
    · rw [hfilter, htaskRole, heid]
    · intro found hfound hto other hother hreq
      obtain ⟨t, ht, htreq, e', he', hid', hrole'⟩ := hsound.satisfied found hfound
      obtain rfl := hsame other hother t ht (hreq.trans htreq.symm)
      obtain rfl : e' = e := List.inj_on_of_nodup_map hsound.nodup he' he (hid'.trans (hto.trans heid.symm))
      exact hrole'.symm.trans htaskRole.symm
  · intro task htask
    rw [hsound.partition.count_eq]
    exact List.count_eq_one_of_mem hdistinct (List.mem_map_of_mem htask)
  · intro edge hedge
    rw [hsound.has] at hedge
    obtain ⟨e, he, rfl⟩ := List.mem_map.1 hedge
    obtain ⟨-, ⟨task, htask, htaskRole⟩, -⟩ := hsound.minted e he
    exact ⟨⟨task.role, hrole task htask, htaskRole⟩, hentry _ (List.mem_map_of_mem he)⟩
  · intro edge hedge
    obtain ⟨t, ht, htreq, e, he, hid, -⟩ := hsound.satisfied edge hedge
    exact ⟨⟨t, ht, htreq⟩, hid ▸ hentry _ (List.mem_map_of_mem he)⟩
  · intro edge hedge
    obtain ⟨hobl, hcap⟩ := hcaps.ends edge hedge
    exact ⟨hdistinctIds _ hobl, hcaps.nodes ▸ hcap⟩
  · intro node hnode
    have hregistered : node.id ∈ c.registry.map (·.id) := hcaps.nodes ▸ List.mem_map_of_mem hnode
    obtain ⟨e, he, heid⟩ := List.mem_map.1 hregistered
    obtain ⟨edge, hedge, hcap⟩ := hcaps.required e he
    exact ⟨edge, hedge, hcap.trans heid⟩

/-! ## One run -/

/-- Hashes given by a table, and in unary for other texts. -/
def tableHash (table : List (String × String)) (s : String) : String :=
  match under Prod.fst s table with
  | some row => row.2
  | none => String.ofList (s.toList.flatMap fun c => List.replicate c.toNat 'y' ++ ['x'])

theorem unary_injective {cs ds : List Char}
    (h : cs.flatMap (fun c => List.replicate c.toNat 'y' ++ ['x']) = ds.flatMap fun c => List.replicate c.toNat 'y' ++ ['x']) :
    cs = ds := by
  induction cs generalizing ds with
  | nil =>
    cases ds with
    | nil => rfl
    | cons d ds => simp at h
  | cons c cs ih =>
    cases ds with
    | nil => simp at h
    | cons d ds =>
      simp only [List.flatMap_cons, List.append_assoc, List.singleton_append] at h
      have hno : ∀ e : Char, 'x' ∉ List.replicate e.toNat 'y' := by
        intro e hmem
        exact absurd (List.eq_of_mem_replicate hmem) (by decide)
      obtain ⟨hcount, hrest⟩ := (Text.join_inj_first (hno c) (hno d)).1 h
      have hlength := congrArg List.length hcount
      rw [List.length_replicate, List.length_replicate] at hlength
      rw [Char.toNat_inj.1 hlength, ih hrest]

/-- The hash of a table of hexadecimal digits is as assumed. -/
theorem idHash_table {h : PolicyLifecycle.Hashing} {table : List (String × String)} (htable : h.hash = tableHash table)
    (hkeys : ∀ p ∈ table, ∀ q ∈ table, p.2 = q.2 → p.1 = q.1)
    (hdigits : ∀ p ∈ table, p.2.toList ≠ [] ∧ ∀ c ∈ p.2.toList, c ∉ ['x', 'y', '_', ':']) : IdHash h := by
  have hcases : ∀ s, (∃ p ∈ table, p.1 = s ∧ h.hash s = p.2) ∨
      h.hash s = String.ofList (s.toList.flatMap fun c => List.replicate c.toNat 'y' ++ ['x']) := by
    intro s
    rw [htable]
    unfold tableHash
    cases hunder : under Prod.fst s table with
    | some row => exact .inl ⟨row, (LastWins.mem_of_under hunder).1, (LastWins.mem_of_under hunder).2, rfl⟩
    | none => exact .inr rfl
  have hunary : ∀ (s : String) (c : Char), c ∈ s.toList.flatMap (fun c => List.replicate c.toNat 'y' ++ ['x']) →
      c = 'x' ∨ c = 'y' := by
    intro s c hc
    obtain ⟨d, -, hc⟩ := List.mem_flatMap.1 hc
    rcases List.mem_append.1 hc with hc | hc
    · exact .inr (List.eq_of_mem_replicate hc)
    · exact .inl (List.mem_singleton.1 hc)
  have hapart : ∀ p ∈ table, ∀ s : String,
      p.2 ≠ String.ofList (s.toList.flatMap fun c => List.replicate c.toNat 'y' ++ ['x']) := by
    intro p hp s heq
    obtain ⟨hne, hall⟩ := hdigits p hp
    cases hchars : p.2.toList with
    | nil => exact hne hchars
    | cons c cs =>
      have hc : c ∈ p.2.toList := by rw [hchars]; simp
      have hdigit := hall c hc
      rw [heq, String.toList_ofList] at hc
      rcases hunary s c hc with rfl | rfl <;> exact hdigit (by simp)
  have hfree : ∀ s c, c ∈ (h.hash s).toList → c ≠ '_' ∧ c ≠ ':' := by
    intro s c hc
    rcases hcases s with ⟨p, hp, -, heq⟩ | heq
    · rw [heq] at hc
      have hdigit := (hdigits p hp).2 c hc
      exact ⟨fun h => hdigit (by simp [h]), fun h => hdigit (by simp [h])⟩
    · rw [heq, String.toList_ofList] at hc
      rcases hunary s c hc with rfl | rfl <;> exact ⟨by decide, by decide⟩
  refine ⟨fun s t heq => ?_, fun s hmem => (hfree s _ hmem).1 rfl, fun s hmem => (hfree s _ hmem).2 rfl⟩
  rcases hcases s with ⟨p, hp, hps, hsp⟩ | hs <;> rcases hcases t with ⟨q, hq, hqt, htq⟩ | ht
  · exact hps.symm.trans ((hkeys p hp q hq (hsp.symm.trans (heq.trans htq))).trans hqt)
  · exact absurd (hsp.symm.trans (heq.trans ht)) (hapart p hp t)
  · exact absurd (htq.symm.trans (heq.symm.trans hs)) (hapart q hq s)
  · exact String.toList_inj.1 (unary_injective (String.ofList_injective (hs.symm.trans (heq.trans ht))))

def asciiLower (s : String) : String := String.ofList (s.toList.map Char.toLower)

def half : Double := ⟨0x3FE0000000000000⟩

/-- Some answers, with their JSON. -/
def sampleAnswers : List (String × PyValue) :=
  [("\x7b\"new_text\": \"Keep Records\", \"confidence\": 0.5\x7d",
      .dict [("new_text", .str "Keep Records"), ("confidence", .float half)]),
    ("\x7b\"new_text\": \"Report Incidents\", \"confidence\": 0.5\x7d",
      .dict [("new_text", .str "Report Incidents"), ("confidence", .float half)]),
    ("\x7b\"capabilities\": [\x7b\"new_name\": \"Record Keeping\", \"confidence\": 0.5\x7d]\x7d",
      .dict [("capabilities", .list [.dict [("new_name", .str "Record Keeping"), ("confidence", .float half)]])]),
    ("\x7b\"capabilities\": [\x7b\"matched_existing_id\": \"cap_record_keeping_5ad991\", \"confidence\": 0.5\x7d, \x7b\"new_name\": \"Incident Detection\", \"confidence\": 0.5\x7d]\x7d",
      .dict [("capabilities", .list [.dict [("matched_existing_id", .str "cap_record_keeping_5ad991"), ("confidence", .float half)],
      .dict [("new_name", .str "Incident Detection"), ("confidence", .float half)]])]),
    ("\x7b\"verdict\": \"accept\"\x7d",
      .dict [("verdict", .str "accept")]),
    ("\x7b\"capabilities\": []\x7d",
      .dict [("capabilities", .list [])])]

def sampleTable : List (String × String) :=
  [("CRA-1.0:manufacturer", "4dee2f"), ("CRA-1.0:importer", "a11cd7"),
    ("role_manufacturer_4dee2f:keep records", "aa7d8f"), ("role_manufacturer_4dee2f:report incidents", "de2c02"), ("record keeping", "5ad991"),
    ("incident detection", "c6c4c6")]

def sampleAnswer (n : ℕ) : Completion := .text (sampleAnswers.getD n ("", .none)).1

/-- The readers on these answers. -/
def sampleRules : AnswerRules where
  lower := asciiLower
  hash := tableHash sampleTable
  casefold := asciiLower
  isSpace := Char.isWhitespace
  isUpper s := s.toList.any Char.isUpper && !s.toList.any Char.isLower
  loads s :=
    match under Prod.fst s sampleAnswers with
    | some answer => .value answer.2
    | none => .invalid
  confidence
    | .float d => some d
    | _ => none

theorem sampleRules_idHash : IdHash sampleRules.toHashing := by
  have hkeys : ∀ p ∈ sampleTable, ∀ q ∈ sampleTable, p.2 = q.2 → p.1 = q.1 := by decide +kernel
  have hdigits : ∀ p ∈ sampleTable, p.2.toList ≠ [] ∧ ∀ c ∈ p.2.toList, c ∉ ['x', 'y', '_', ':'] := by
    simp [sampleTable]
  exact idHash_table rfl hkeys hdigits

/-- Two duties of one Role. -/
def sampleRoles : List RoleRequirements :=
  [⟨roleId sampleRules.toHashing "Manufacturer" "CRA-1.0", "Manufacturer",
    [("CRA-1.0_req_art_13.1", "The manufacturer shall keep records."),
      ("CRA-1.0_req_art_14.1", "The manufacturer shall report incidents.")]⟩]

/-- A run over two duties: the second Obligation reuses a Capability, as verified, and needs another. -/
theorem derivation_well_formed_reuse : ∃ d, deriveObligationsAndCapabilities sampleRules sampleAnswer
    (fun k => ⟨sampleAnswer (2 + k), fun _ => sampleAnswer 4⟩) sampleRoles = some d ∧
    d.capabilities.requiresEdges.length = 3 ∧
    WellFormed sampleRules sampleRoles (fun k => ⟨sampleAnswer (2 + k), fun _ => sampleAnswer 4⟩) d := by
  have hrun : ((deriveObligationsAndCapabilities sampleRules sampleAnswer
      (fun k => ⟨sampleAnswer (2 + k), fun _ => sampleAnswer 4⟩) sampleRoles).map fun d =>
        d.capabilities.requiresEdges.length) = some 3 := by decide +kernel
  obtain ⟨d, hd, hlength⟩ := Option.map_eq_some_iff.1 hrun
  refine ⟨d, hd, hlength, derivation_well_formed sampleRules sampleRules_idHash sampleRoles sampleAnswer _ d ?_ ?_ hd⟩
  · intro role hrole
    obtain rfl := List.mem_singleton.1 hrole
    exact ⟨"Manufacturer", "CRA-1.0", rfl⟩
  · decide +kernel

end PolicySystem.DomainMapper
