import PolicySystem.Governance.Clock
import PolicySystem.PolicyLifecycle.Groups

/-!
# What the writers ask

Every lifecycle call and every cleanup write submits only fit groups, whatever the other writers do between its steps.

* `calls_keep`: the lifecycle calls, by their groups: those that name no `GOVERNED_BY` edge, the claims, the fork approval;
* `writes_keep`: the cleanup writes, by their guards.
-/

namespace PolicySystem.Governance

open Std (ExtTreeMap)
open Interleaved PropertyGraph PolicyLifecycle

/-! ## Rules of the calls -/

section Rules

variable {gw : Gateway} {h : Hashing} {α : Type} {s : GraphState}

/-- A lifecycle call submits only fit groups. -/
abbrev Keeps (gw : Gateway) (p : Call α) (P : GraphState → α → Prop) (s : GraphState) : Prop :=
  p.safe (fun s group => carry gw s (.lifecycle group)) (Drift gw) (fun s group => Fit gw s (.lifecycle group)) P s

theorem keeps_query {f : Graph → α} {P : GraphState → α → Prop} (hP : ∀ s', Drift gw s s' → P s' (f s'.graph)) :
    Keeps gw (query f) P s := Flow.safe_get hP

theorem keeps_gate {allowed : Bool} {P : GraphState → Unit → Prop} (hP : allowed = true → P s ()) :
    Keeps gw (gate allowed) P s := by
  cases allowed with
  | true => exact hP rfl
  | false => exact Flow.safe_halt

theorem keeps_need {found : Option α} {P : GraphState → α → Prop} (hP : ∀ a, found = some a → P s a) :
    Keeps gw (need found) P s := by
  cases found with
  | none => exact Flow.safe_halt
  | some a => exact hP a rfl

theorem due_zero {s' : GraphState} (hs : Drift gw s s') (hdue : due gw s = 0) : due gw s' = 0 := by
  have hless := hs.later.due
  have hless' : due gw s' ≤ due gw s := hless
  omega

/-- **The stamps**: what was counted is what was due, and nothing is due afterwards. -/
theorem keeps_ensureStamped {P : GraphState → ℕ → Prop}
    (hP : ∀ s₁ s₂, Drift gw s s₁ → Drift gw s₁ s₂ → due gw s₂ = 0 → P s₂ (due gw s₁)) :
    Keeps gw (ensureStamped gw) P s := by
  refine Flow.safe_bind (keeps_query fun s₁ hs₁ => ?_)
  by_cases hnil : scanUnidentifiedEdges gw.allow gw.scan s₁.graph = []
  · rw [if_pos hnil]
    have hdue : due gw s₁ = 0 := by rw [due, hnil, List.length_nil]
    have hgot := hP s₁ s₁ hs₁ (Drift.refl gw s₁) hdue
    rw [hdue] at hgot
    exact hgot
  · rw [if_neg hnil]
    have hfit : ∀ s', Fit gw s' (.lifecycle
        ⟨.stamp, (scanUnidentifiedEdges gw.allow gw.scan s₁.graph).map .stampEdgeIdentity, none⟩) := by
      intro s' _
      refine ⟨.inl ⟨_, rfl, scan_nodup, fun e he => (mem_scanUnidentifiedEdges.1 he).1⟩, ?_⟩
      intro group actor id c heq hpurpose
      cases heq
      cases hpurpose
    refine Flow.safe_bind (Flow.safe_ask (fun s' _ => hfit s') fun answer s' s'' hs' hcarry => ?_)
    have hdrift : Drift gw s₁ s'' := hs'.trans _ _ _ (carry_drift (hfit s') hcarry)
    cases answer with
    | applied =>
      refine hP s₁ s'' hs₁ hdrift ?_
      -- what the scan found is stamped, and nothing else was found later
      have hcommit : gw.commit s' ⟨.stamp, (scanUnidentifiedEdges gw.allow gw.scan s₁.graph).map .stampEdgeIdentity,
          none⟩ = some s'' := hcarry
      obtain ⟨-, effective, -, rfl⟩ := commit_some hcommit
      have hnone : scanUnidentifiedEdges gw.allow gw.scan (applyAll s'.graph
          ((scanUnidentifiedEdges gw.allow gw.scan s₁.graph).map .stampEdgeIdentity)) = [] := by
        refine List.eq_nil_iff_forall_not_mem.2 fun e he => ?_
        obtain ⟨hold, hno⟩ := scan_after he
        exact hno (List.mem_map_of_mem (hs'.unstamped e hold))
      rw [due]
      exact List.length_eq_zero_iff.2 hnone
    | unknown => exact Flow.safe_halt
    | stale => exact Flow.safe_halt
    | refused => exact Flow.safe_halt

theorem keeps_submit {group : Group} {P : GraphState → Bool → Prop}
    (hfit : ∀ s', Drift gw s s' → Fit gw s' (.lifecycle group)) (hP : ∀ s' b, Drift gw s s' → P s' b) :
    Keeps gw (submit group) P s := by
  refine Flow.safe_bind (Flow.safe_ask hfit fun answer s' s'' hs' hcarry => ?_)
  have hdrift : Drift gw s s'' := hs'.trans _ _ _ (carry_drift (hfit s' hs') hcarry)
  cases answer with
  | applied => exact hP s'' true hdrift
  | stale => exact hP s'' false hdrift
  | unknown => exact Flow.safe_halt
  | refused => exact Flow.safe_halt

/-! ## Groups that name no governor -/

/-- No delete, no stamp, and no `GOVERNED_BY` edge. -/
def Plain : Primitive → Prop
  | .upsertNode _ _ _ => True
  | .mergeProperty _ _ => True
  | .removeProperty _ _ => True
  | .upsertEdge e _ => e.type ≠ "GOVERNED_BY" ∧ e.edgeKey.Standard
  | _ => False

theorem Plain.quiet {p : Primitive} (hp : Plain p) (c : String) : ¬ Gives c p := by
  cases p with
  | upsertEdge e props =>
    intro hgives
    have htype : e.type = "GOVERNED_BY" := congrArg EdgeRecord.relType hgives
    exact hp.1 htype
  | _ => exact id

theorem Plain.keeps {p : Primitive} (hp : Plain p) :
    (∀ n, p ≠ .deleteNode n) ∧ (∀ e, p ≠ .deleteEdge e) ∧ Settled p := by
  refine ⟨fun n heq => ?_, fun e heq => ?_, fun e heq => ?_⟩
  · rw [heq] at hp
    exact hp
  · rw [heq] at hp
    exact hp
  · rw [heq] at hp
    exact hp

theorem fair_of_plain {g : Graph} {ps : List Primitive} (hps : ∀ p ∈ ps, Plain p) : Fair g ps :=
  fair_of_quiet (fun p hp => (hps p hp).keeps.2.2) (fun e props hmem => (hps _ hmem).2)
    fun c p hp => (hps p hp).quiet c

theorem keeps_submitGroup {purpose : Purpose} {ps : List Primitive} {P : GraphState → Unit → Prop}
    (hps : ∀ p ∈ ps, Plain p) (hP : ∀ s', Drift gw s s' → P s' ()) : Keeps gw (PolicyLifecycle.submitGroup gw purpose ps) P s := by
  unfold PolicyLifecycle.submitGroup
  split
  · exact hP s (Drift.refl gw s)
  · refine Flow.safe_bind (keeps_ensureStamped fun s₁ s₂ hs₁ hs₂ hdue => ?_)
    refine Flow.safe_bind (keeps_submit (fun s' hs' _ => ?_) fun s' _ hs' => ?_)
    · refine ⟨.inr ⟨due_zero hs' hdue, fair_of_plain hps⟩, ?_⟩
      intro group actor id c heq _ _ hgives
      cases heq
      obtain ⟨p, hp, hc⟩ := hgives
      exact absurd hc ((hps p hp).quiet c)
    · exact hP s' ((hs₁.trans _ _ _ hs₂).trans _ _ _ hs')

theorem plain_merges {nodes : List NodeRef} {props : PropertyMap} :
    ∀ p ∈ nodes.map fun n => Primitive.mergeProperty n props, Plain p := by
  intro p hp
  obtain ⟨n, -, rfl⟩ := List.mem_map.1 hp
  trivial

theorem plain_backfill {scan : ScanOrder} {g : Graph} {policyId : String} :
    ∀ p ∈ backfillPrimitives scan g policyId, Plain p := by
  intro p hp
  unfold backfillPrimitives at hp
  split at hp
  · cases hp
  · rcases List.mem_append.1 hp with hp | hp
    · split at hp
      · rw [List.mem_singleton.1 hp]
        trivial
      · cases hp
    · split at hp
      · cases hp
      · exact plain_merges p hp

theorem plain_cascade {scan : ScanOrder} {g : Graph} {policyId target : String} :
    ∀ p ∈ cascadePrimitives scan g policyId target, Plain p := by
  intro p hp
  unfold cascadePrimitives at hp
  split at hp
  · cases hp
  · exact plain_merges p hp

theorem plain_child {parent child : NodeRef} {props : PropertyMap} {edgeType : String} (htype : edgeType ≠ "GOVERNED_BY") :
    ∀ p ∈ childPrimitives parent child props edgeType, Plain p := by
  intro p hp
  rcases List.mem_cons.1 hp with rfl | hp
  · trivial
  · rw [List.mem_singleton.1 hp]
    exact ⟨htype, rfl⟩

theorem plain_new {new : NewPolicy} : ∀ p ∈ new.primitives, Plain p := by
  intro p hp
  rcases List.mem_cons.1 hp with rfl | hp
  · trivial
  · rcases List.mem_append.1 hp with hp | hp
    · obtain ⟨prior, -, rfl⟩ := Option.map_eq_some_iff.1 (Option.mem_toList.1 hp)
      have htype : "SUPERSEDED_BY" ≠ "GOVERNED_BY" := by decide
      exact ⟨htype, rfl⟩
    · obtain ⟨standard, -, hp⟩ := List.mem_flatMap.1 hp
      rcases List.mem_append.1 hp with hp | hp
      · exact plain_child (by decide) p hp
      · obtain ⟨control, -, hp⟩ := List.mem_flatMap.1 hp
        exact plain_child (by decide) p hp

theorem plain_patch {label id : String} {fields : ContentFields label} : ∀ p ∈ patchPrimitives id fields, Plain p := by
  intro p hp
  rcases mem_patchPrimitives hp with hp | hp
  · rw [hp]
    trivial
  · rw [hp]
    trivial

/-! ## The lifecycle calls -/

theorem keeps_backfill {policyId : String} {P : GraphState → Unit → Prop} (hP : ∀ s', Drift gw s s' → P s' ()) :
    Keeps gw (backfillGovernanceStatus gw policyId) P s := by
  refine Flow.safe_bind (keeps_query fun s₁ hs₁ => ?_)
  exact keeps_submitGroup plain_backfill fun s' hs' => hP s' (hs₁.trans _ _ _ hs')

theorem keeps_readTransitionTarget {policyId : String} {P : GraphState → PolicyRecord → Prop}
    (hP : ∀ s' r, Drift gw s s' → P s' r) : Keeps gw (readTransitionTarget gw policyId) P s := by
  refine Flow.safe_bind (keeps_backfill fun s₁ hs₁ => Flow.safe_bind (keeps_query fun s₂ hs₂ => ?_))
  exact keeps_need fun r _ => hP s₂ r (hs₁.trans _ _ _ hs₂)

theorem keeps_cascadeStatus {action : Transition} {actor : Actor} {policyId : String} {P : GraphState → Unit → Prop}
    (hP : ∀ s', Drift gw s s' → P s' ()) : Keeps gw (cascadeStatus gw action actor policyId) P s := by
  refine Flow.safe_bind (keeps_query fun s₁ hs₁ => ?_)
  exact keeps_submitGroup plain_cascade fun s' hs' => hP s' (hs₁.trans _ _ _ hs')

/-- What the guard of a fork approval says of the graph it read. -/
theorem readForkGovernance_spec {scan : ScanOrder} {g : Graph} {policyId : String} {governance : ForkGovernance}
    (hread : readForkGovernance scan g policyId = some governance) :
    policyRef policyId ∈ g.nodes ∧ ∀ c ∈ governance.capabilityIds, governance.priorId ∈ governors g c := by
  obtain ⟨prior, hprior, rfl⟩ := Option.map_eq_some_iff.1 hread
  constructor
  · obtain ⟨r, hr, rfl⟩ := List.mem_map.1 (List.mem_of_mem_head? hprior)
    obtain ⟨hshow, hselect, htarget⟩ := mem_edgeRows.1 hr
    obtain ⟨k, hk, rfl⟩ := shows_iff_key.1 hshow
    have hid : k.target.id = policyId := of_decide_eq_true htarget
    have hlabel : k.target.label = "Policy" := hselect.2.2
    have hnode : k.target = policyRef policyId := by
      rw [policyRef, ← hid, ← hlabel]
    exact hnode ▸ (ends_of_mem hk).2
  · intro c hc
    simp only [List.mem_flatMap, List.mem_map] at hc
    obtain ⟨x, -, r, hr, rfl⟩ := hc
    obtain ⟨hshow, ⟨htype, hsource, htarget⟩, hid⟩ := mem_edgeRows.1 hr
    have hprior : r.targetId = prior := of_decide_eq_true hid
    have hrecord : r = governedBy r.sourceId prior := by
      cases r
      simp_all [governorPattern, governedBy]
    rw [mem_governors]
    exact hrecord ▸ hshow

/-- A claimed Capability is not governed. -/
theorem claimable_spec {scan : ScanOrder} {g : Graph} {capabilityIds : List String}
    (hread : claimable scan g capabilityIds = true) : ∀ c ∈ capabilityIds, governors g c = 0 := by
  intro c hc
  have hgovernor := of_decide_eq_true (List.all_eq_true.1 hread c hc)
  obtain ⟨content, -, hnone⟩ := Option.map_eq_some_iff.1 hgovernor
  rw [Multiset.eq_zero_iff_forall_notMem]
  intro id hid
  have hempty := List.head?_eq_none_iff.1 hnone
  have hrow : governedBy c id ∈ edgeRows scan g governorPattern fun e => e.sourceId = c :=
    mem_edgeRows.2 ⟨mem_governors.1 hid, ⟨rfl, rfl, rfl⟩, decide_eq_true rfl⟩
  have hmem := List.mem_map_of_mem (f := EdgeRecord.targetId) hrow
  rw [hempty] at hmem
  cases hmem

theorem singleton_of_mem {m : Multiset String} {x : String} (hmem : x ∈ m) (hcard : m.card ≤ 1) : m = {x} := by
  have hle : {x} ≤ m := Multiset.singleton_le.2 hmem
  exact (Multiset.eq_of_le_of_card_le hle (by simpa using hcard)).symm

/-- A governing edge has its standard identity where nothing is left to stamp. -/
theorem standard_of_due {s : GraphState} (hallow : NamesGovernors gw) (hdue : due gw s = 0) (hg : Governed s.graph)
    {c : String} {k : EdgeKey} (hk : k ∈ governorKeys s.graph c) : k.Standard := by
  rcases hg.named c k hk with hnone | hstd
  · exfalso
    obtain ⟨hin, hgov⟩ := mem_governorKeys.1 hk
    have hkey := stamped_unidentified hnone
    have htype : k.type = "GOVERNED_BY" := congrArg EdgeRecord.relType hgov
    have hsource : k.source.label = "Capability" := congrArg EdgeRecord.sourceLabel hgov
    have htarget : k.target.label = "Policy" := congrArg EdgeRecord.targetLabel hgov
    have hscan : k.stamped ∈ scanUnidentifiedEdges gw.allow gw.scan s.graph := by
      refine mem_scanUnidentifiedEdges.2 ⟨by rw [hkey], ?_, ?_⟩
      · rw [hkey]
        exact mem_edgeKeys.1 hin
      · cases k
        cases hnone
        simp only at htype hsource htarget
        obtain ⟨hrel, hcapability, hpolicy⟩ := hallow
        simp [EdgeKey.stamped, legacyEdgeStamp, Primitive.isAllowed, htype, hsource, htarget, hrel, hcapability, hpolicy]
    have hpos := List.length_pos_of_mem hscan
    rw [due] at hdue
    omega
  · exact hstd

/-- **A group at the position its guard was read at finds the graph its guard read.** -/
theorem same_at_submit {s₁ s₂ s₃ s₄ : GraphState} (h₂ : Drift gw s₁ s₂) (h₃ : Drift gw s₂ s₃) (h₄ : Drift gw s₃ s₄)
    (hdue : due gw s₄ = 0) (hposition : s₄.position = s₁.position + due gw s₃) :
    SameButIdentities s₂.graph s₄.graph :=
  h₂.later.unmoved h₃.later h₄.later hdue hposition

/-! ## The lifecycle calls -/

/-- The move of a fork's Capabilities, on a graph where its prior still governs them. -/
theorem fair_repoint {s : GraphState} {policyId priorId : String} {ids : List String} {rest : List Primitive}
    (hallow : NamesGovernors gw) (hdue : due gw s = 0) (hpolicy : policyRef policyId ∈ s.graph.nodes)
    (hprior : ∀ c ∈ ids, priorId ∈ governors s.graph c) (hrest : ∀ p ∈ rest, Plain p) :
    Fair s.graph (repointPrimitives policyId priorId ids ++ rest) ∧
      ∀ c, Governed s.graph → (∃ p ∈ repointPrimitives policyId priorId ids ++ rest, Gives c p) →
        governors (applyAll s.graph (repointPrimitives policyId priorId ids ++ rest)) c = {policyId} := by
  have hmember : ∀ c, ∀ p ∈ repointPrimitives policyId priorId ids ++ rest, Gives c p → c ∈ ids.eraseDups := by
    intro c p hp hgives
    rcases List.mem_append.1 hp with hp | hp
    · rcases List.mem_append.1 hp with hp | hp
      · obtain ⟨x, -, rfl⟩ := List.mem_map.1 hp
        exact absurd hgives id
      · obtain ⟨x, hx, rfl⟩ := List.mem_map.1 hp
        have hsource : x = c := congrArg EdgeRecord.sourceId hgives
        exact hsource ▸ hx
    · exact absurd hgives ((hrest p hp).quiet c)
  have hsettled : ∀ p ∈ repointPrimitives policyId priorId ids ++ rest, Settled p := by
    intro p hp
    rcases List.mem_append.1 hp with hp | hp
    · rcases List.mem_append.1 hp with hp | hp
      · obtain ⟨x, -, rfl⟩ := List.mem_map.1 hp
        intro e heq
        cases heq
      · obtain ⟨x, -, rfl⟩ := List.mem_map.1 hp
        intro e heq
        cases heq
    · exact (hrest p hp).keeps.2.2
  have hexact : ∀ c, Governed s.graph → c ∈ ids.eraseDups →
      governors (applyAll s.graph (repointPrimitives policyId priorId ids ++ rest)) c = {policyId} := by
    intro c hg hc
    exact repoint_exact (fun c hc => singleton_of_mem (hprior c hc) (hg.one c))
      (fun c _ k hk => standard_of_due hallow hdue hg hk) hpolicy (fun p hp => (hrest p hp).keeps)
      (fun c p hp => (hrest p hp).quiet c) hc
  refine ⟨⟨hsettled, ?_, fun hg c => ?_⟩, fun c hg ⟨p, hp, hgives⟩ => hexact c hg (hmember c p hp hgives)⟩
  · intro e props hmem
    rcases List.mem_append.1 hmem with hmem | hmem
    · rcases List.mem_append.1 hmem with hmem | hmem
      · obtain ⟨x, -, heq⟩ := List.mem_map.1 hmem
        cases heq
      · obtain ⟨x, -, heq⟩ := List.mem_map.1 hmem
        cases heq
        rfl
    · exact (hrest _ hmem).2
  · by_cases hc : c ∈ ids.eraseDups
    · rw [hexact c hg hc]
      exact le_of_eq (Multiset.card_singleton _)
    · have hno : ∀ p ∈ repointPrimitives policyId priorId ids ++ rest, ¬ Gives c p :=
        fun p hp hgives => hc (hmember c p hp hgives)
      have hafter := Multiset.card_le_card (applyAll_governorKeys_le (g := s.graph) hsettled hno)
      have hbefore := hg.one c
      rw [card_governors] at hbefore ⊢
      omega

theorem keeps_approveForkRepoint {actor : Actor} {policyId : String} {repoint : ForkGovernance}
    {P : GraphState → Bool → Prop} (hallow : NamesGovernors gw) (hP : ∀ s' b, Drift gw s s' → P s' b) :
    Keeps gw (approveForkRepoint gw actor policyId repoint) P s := by
  refine Flow.safe_bind (Flow.safe_get fun s₁ hs₁ => Flow.safe_bind (keeps_query fun s₂ hs₂ => ?_))
  have hto₂ : Drift gw s s₂ := hs₁.trans _ _ _ hs₂
  by_cases hkept : repoint.unchanged (readForkGovernance gw.scan s₂.graph policyId) = true
  · rw [hkept, Bool.not_true, if_neg Bool.false_ne_true]
    refine Flow.safe_bind (keeps_ensureStamped fun s₃ s₄ hs₃ hs₄ hdue => Flow.safe_bind (keeps_query fun s₅ hs₅ => ?_))
    refine keeps_submit (fun s₆ hs₆ hexpected => ?_) fun s₆ b hs₆ =>
      hP s₆ b ((((hto₂.trans _ _ _ hs₃).trans _ _ _ hs₄).trans _ _ _ hs₅).trans _ _ _ hs₆)
    have hlast : Drift gw s₃ s₆ := (hs₄.trans _ _ _ hs₅).trans _ _ _ hs₆
    have hdue₆ : due gw s₆ = 0 := due_zero (hs₅.trans _ _ _ hs₆) hdue
    have hposition : s₆.position = s₁.position + due gw s₃ := by
      have heq : decide (s₁.position + due gw s₃ = s₆.position) = true := hexpected
      exact (of_decide_eq_true heq).symm
    have hsame := same_at_submit hs₂ hs₃ hlast hdue₆ hposition
    -- the guard, of the graph the group finds
    cases hread : readForkGovernance gw.scan s₂.graph policyId with
    | none =>
      rw [hread] at hkept
      cases hkept
    | some now =>
      rw [hread] at hkept
      obtain ⟨hprior, hids⟩ : now.priorId = repoint.priorId ∧ now.capabilityIds.Perm repoint.capabilityIds := by
        simpa [ForkGovernance.unchanged] using hkept
      obtain ⟨hpolicy, hgoverned⟩ := readForkGovernance_spec hread
      have hmoved : ∀ c ∈ repoint.capabilityIds, repoint.priorId ∈ governors s₆.graph c := by
        intro c hc
        rw [hsame.governors, ← hprior]
        exact hgoverned c (hids.mem_iff.2 hc)
      obtain ⟨hfair, hexact⟩ := fair_repoint hallow hdue₆ (hsame.mem.2 hpolicy) hmoved
        (@plain_cascade gw.scan s₅.graph policyId Transition.approve.target)
      refine ⟨.inr ⟨hdue₆, hfair⟩, ?_⟩
      intro group actor' id c heq hpurpose hg hgives
      cases heq
      cases hpurpose
      exact hexact c hg hgives
  · rw [Bool.eq_false_iff.2 hkept, Bool.not_false, if_pos rfl]
    exact hP s₂ false hto₂

theorem keeps_approvePolicy {access : Access} {actor : Actor} {policyId : String} (hallow : NamesGovernors gw) :
    Keeps gw (approvePolicy gw access actor policyId) (fun _ _ => True) s := by
  have hdeprecate : ∀ s, Keeps gw (deprecatePrior gw actor policyId) (fun _ _ => True) s := by
    intro s
    refine Flow.safe_bind (keeps_query fun s₁ _ => ?_)
    split
    · trivial
    · refine Flow.safe_bind (keeps_query fun s₂ _ => ?_)
      split
      · trivial
      · exact keeps_cascadeStatus fun _ _ => trivial
  refine Flow.safe_bind (keeps_readTransitionTarget fun s₁ r _ => ?_)
  refine Flow.safe_bind (keeps_gate fun _ => Flow.safe_bind (keeps_gate fun _ => Flow.safe_bind (keeps_gate fun _ => ?_)))
  refine Flow.safe_bind (keeps_query fun s₂ _ => Flow.safe_bind ?_)
  cases readRepoint gw.scan s₂.graph policyId with
  | none => exact keeps_cascadeStatus fun s₃ _ => hdeprecate s₃
  | some repoint =>
    refine Flow.safe_bind (keeps_approveForkRepoint hallow fun s₃ b _ => ?_)
    exact keeps_gate fun _ => hdeprecate s₃

/-- A claim of Capabilities that nothing governs. -/
theorem fair_claims {g : Graph} {new : NewPolicy} {ids : List String} (hfree : ∀ c ∈ ids, governors g c = 0) :
    Fair g (new.primitives ++ claimPrimitives new.policyId ids) := by
  have hclaims : ∀ p ∈ claimPrimitives new.policyId ids, ∃ c ∈ ids,
      p = .upsertEdge (edgeBetween "GOVERNED_BY" (capabilityRef c) (policyRef new.policyId)) ∅ := by
    intro p hp
    obtain ⟨c, hc, rfl⟩ := List.mem_map.1 hp
    exact ⟨c, hc, rfl⟩
  have hgiven : ∀ c, ∀ p ∈ new.primitives ++ claimPrimitives new.policyId ids, Gives c p → c ∈ ids ∧
      p = .upsertEdge (edgeBetween "GOVERNED_BY" (capabilityRef c) (policyRef new.policyId)) ∅ := by
    intro c p hp hgives
    rcases List.mem_append.1 hp with hp | hp
    · exact absurd hgives ((plain_new p hp).quiet c)
    · obtain ⟨x, hx, rfl⟩ := hclaims p hp
      have hsource : x = c := congrArg EdgeRecord.sourceId hgives
      exact ⟨hsource ▸ hx, by rw [hsource]⟩
  refine fair_of_free (fun p hp => ?_) (fun e props hmem => ?_) (fun _ c p hp hgives => hfree c (hgiven c p hp hgives).1)
    fun _ c => ⟨_, fun p hp hgives => ⟨∅, (hgiven c p hp hgives).2⟩⟩
  · rcases List.mem_append.1 hp with hp | hp
    · exact (plain_new p hp).keeps.2.2
    · obtain ⟨x, -, rfl⟩ := hclaims p hp
      intro e heq
      cases heq
  · rcases List.mem_append.1 hmem with hmem | hmem
    · exact (plain_new _ hmem).2
    · obtain ⟨x, -, heq⟩ := hclaims _ hmem
      cases heq
      rfl

theorem keeps_writeClaimed {new : NewPolicy} {ids : List String} :
    Keeps gw (writeClaimed gw new ids) (fun _ _ => True) s := by
  refine Flow.safe_bind (Flow.safe_get fun s₁ _ => Flow.safe_bind (keeps_query fun s₂ hs₂ => ?_))
  refine Flow.safe_bind (keeps_gate fun hclaimable => ?_)
  refine Flow.safe_bind (keeps_ensureStamped fun s₃ s₄ hs₃ hs₄ hdue => Flow.safe_bind (keeps_gate fun _ => ?_))
  refine Flow.safe_bind (keeps_submit (fun s₅ hs₅ hexpected => ?_) fun s₅ _ _ => keeps_gate fun _ => trivial)
  have hdue₅ : due gw s₅ = 0 := due_zero hs₅ hdue
  have hposition : s₅.position = s₁.position + due gw s₃ := by
    have heq : decide (s₁.position + due gw s₃ = s₅.position) = true := hexpected
    exact (of_decide_eq_true heq).symm
  have hsame := same_at_submit hs₂ hs₃ (hs₄.trans _ _ _ hs₅) hdue₅ hposition
  refine ⟨.inr ⟨hdue₅, fair_claims fun c hc => ?_⟩, ?_⟩
  · rw [hsame.governors]
    exact claimable_spec hclaimable c hc
  · intro group actor id c heq hpurpose
    cases heq
    cases hpurpose

theorem keeps_createPolicyDraft {actor : Actor} {title : String} {standards : List StandardDraftInput}
    {supersedes : Option String} {capabilityIds : List String} :
    Keeps gw (createPolicyDraft gw h actor title standards supersedes capabilityIds) (fun _ _ => True) s := by
  have hversion : ∀ {P : GraphState → String → Prop}, (∀ s' v, P s' v) → Keeps gw (newVersion gw supersedes) P s := by
    intro P hP
    cases supersedes with
    | none => exact hP s "1"
    | some prior =>
      refine Flow.safe_bind (keeps_readTransitionTarget fun s₁ r _ => Flow.safe_bind (keeps_gate fun _ => ?_))
      exact keeps_need fun v _ => hP s₁ v
  refine Flow.safe_bind (hversion fun s₁ version => Flow.safe_bind (keeps_query fun s₂ _ => ?_))
  refine Flow.safe_bind (keeps_gate fun _ => Flow.safe_bind (keeps_query fun s₃ _ => Flow.safe_bind (keeps_gate fun _ => ?_)))
  have hrest : ∀ s (drafts : Option (List StandardDraft)) (claimed : List String), Keeps gw (do
      let drafts ← need drafts
      let new : NewPolicy := ⟨h.policyId title supersedes, title, actor, drafts, supersedes, version⟩
      if claimed = [] then writeUnclaimed gw new else writeClaimed gw new claimed) (fun _ _ => True) s := by
    intro s drafts claimed
    refine Flow.safe_bind (keeps_need fun drafts _ => ?_)
    by_cases hnil : claimed = []
    · rw [if_pos hnil]
      exact Flow.safe_bind (keeps_gate fun _ => keeps_submitGroup plain_new fun _ _ => trivial)
    · rw [if_neg hnil]
      exact keeps_writeClaimed
  cases supersedes with
  | none => exact Flow.safe_bind (Flow.safe_pure (hrest s₃ _ _))
  | some prior => exact Flow.safe_bind (keeps_query fun s₄ _ => hrest s₄ _ _)

/-- **Every lifecycle call submits only fit groups.** -/
theorem calls_keep (hallow : NamesGovernors gw) (call : LifecycleCall) :
    Keeps gw (call.flow gw h) (fun _ _ => True) s := by
  have hstandard : ∀ {P : GraphState → StandardWithParent → Prop} {standardId : String} {s : GraphState},
      (∀ s' r, P s' r) → Keeps gw (readStandardWithParentBackfilled gw standardId) P s := by
    intro P standardId s hP
    refine Flow.safe_bind (keeps_query fun s₁ _ => Flow.safe_bind (keeps_need fun row _ => ?_))
    refine Flow.safe_bind (keeps_backfill fun s₂ _ => Flow.safe_bind (keeps_query fun s₃ _ => ?_))
    exact keeps_need fun row _ => hP s₃ row
  have hcontrol : ∀ {P : GraphState → ControlWithParent → Prop} {controlId : String} {s : GraphState},
      (∀ s' r, P s' r) → Keeps gw (readControlWithParentBackfilled gw controlId) P s := by
    intro P controlId s hP
    refine Flow.safe_bind (keeps_query fun s₁ _ => Flow.safe_bind (keeps_need fun row _ => ?_))
    refine Flow.safe_bind (keeps_backfill fun s₂ _ => Flow.safe_bind (keeps_query fun s₃ _ => ?_))
    exact keeps_need fun row _ => hP s₃ row
  cases call with
  | createPolicyDraft actor title standards supersedes capabilityIds => exact keeps_createPolicyDraft
  | getPolicy policyId => exact Flow.safe_bind (keeps_readTransitionTarget fun _ _ _ => trivial)
  | proposePolicy actor policyId =>
    refine Flow.safe_bind (keeps_readTransitionTarget fun s₁ r _ => Flow.safe_bind (keeps_gate fun _ => ?_))
    refine Flow.safe_bind (keeps_gate fun _ => Flow.safe_bind (keeps_gate fun _ => ?_))
    exact keeps_cascadeStatus fun _ _ => trivial
  | approvePolicy access actor policyId => exact keeps_approvePolicy hallow
  | rejectPolicy access actor policyId =>
    refine Flow.safe_bind (keeps_readTransitionTarget fun s₁ r _ => Flow.safe_bind (keeps_gate fun _ => ?_))
    refine Flow.safe_bind (keeps_gate fun _ => Flow.safe_bind (keeps_gate fun _ => ?_))
    exact keeps_cascadeStatus fun _ _ => trivial
  | revertPolicyToDraft actor policyId =>
    refine Flow.safe_bind (keeps_readTransitionTarget fun s₁ r _ => Flow.safe_bind (keeps_gate fun _ => ?_))
    refine Flow.safe_bind (keeps_gate fun _ => ?_)
    exact keeps_cascadeStatus fun _ _ => trivial
  | updatePolicyDraft access actor policyId fields =>
    refine Flow.safe_bind (keeps_readTransitionTarget fun s₁ r _ => Flow.safe_bind (keeps_gate fun _ => ?_))
    exact keeps_submitGroup plain_patch fun _ _ => trivial
  | addStandardToDraft access actor policyId title fields =>
    refine Flow.safe_bind (keeps_readTransitionTarget fun s₁ r _ => Flow.safe_bind (keeps_gate fun _ => ?_))
    exact keeps_submitGroup (plain_child (by decide)) fun _ _ => trivial
  | updateStandardDraft access actor standardId fields =>
    refine Flow.safe_bind (hstandard fun s₁ row => Flow.safe_bind (keeps_gate fun _ => ?_))
    exact keeps_submitGroup plain_patch fun _ _ => trivial
  | addControlToDraft access actor standardId title controlType fields =>
    refine Flow.safe_bind (hstandard fun s₁ row => Flow.safe_bind (keeps_gate fun _ => ?_))
    exact keeps_submitGroup (plain_child (by decide)) fun _ _ => trivial
  | updateControlDraft access actor controlId fields =>
    refine Flow.safe_bind (hcontrol fun s₁ row => Flow.safe_bind (keeps_gate fun _ => ?_))
    exact keeps_submitGroup plain_patch fun _ _ => trivial

end Rules

/-! ## The cleanup writes -/

section Cleanup

variable {gw : Gateway} {s : GraphState} {g g₀ : Graph} {raws : List RawPrimitive} {ps : List Primitive}

/-- What the builders make primitives from: edges under the standard identity, and nodes. -/
inductive Built : RawPrimitive → Prop where
  | upsert (e : EdgeRecord) : Built (upsertRecord e)
  | delete (e : EdgeRecord) : Built (deleteRecord e)
  | node (label id : String) (properties : List (String × PyValue)) (embedding : Option Embedding) :
    Built (.upsertNode label id properties embedding)
  | drop (label id : String) : Built (.deleteNode label id)

theorem mem_built (hbuild : buildGroup raws = some ps) {p : Primitive} (hp : p ∈ ps) :
    ∃ raw ∈ raws, raw.accept = some p := by
  induction raws generalizing ps with
  | nil =>
    cases hbuild
    cases hp
  | cons raw raws ih =>
    obtain ⟨q, rest, hq, hrest, rfl⟩ := buildGroup_cons.1 hbuild
    rcases List.mem_cons.1 hp with rfl | hp
    · exact ⟨raw, by simp, hq⟩
    · obtain ⟨raw', hraw', haccept⟩ := ih hrest hp
      exact ⟨raw', by simp [hraw'], haccept⟩

theorem accept_deleteRecord {e : EdgeRecord} {p : Primitive} (h : (deleteRecord e).accept = some p) :
    p = .deleteEdge e.base := by
  simp only [deleteRecord, RawPrimitive.accept, Option.bind_eq_bind, Option.bind_eq_some_iff] at h
  obtain ⟨b, hb, heq⟩ := h
  cases heq
  rw [accept_edge hb]

/-- **A built group is fair** where it gives governors only to Capabilities without one, each from one Policy. -/
theorem fair_of_built (hbuild : buildGroup raws = some ps) (hbuilt : ∀ raw ∈ raws, Built raw)
    (hfree : Governed g → ∀ c id, upsertRecord (governedBy c id) ∈ raws → governors g c = 0)
    (hsole : Governed g → ∀ c id id', upsertRecord (governedBy c id) ∈ raws → upsertRecord (governedBy c id') ∈ raws →
      id = id') : Fair g ps := by
  have hshape : ∀ p ∈ ps, Settled p ∧ ∀ e props, p = .upsertEdge e props →
      ∃ r : EdgeRecord, upsertRecord r ∈ raws ∧ e = r.base ∧ props = ∅ := by
    intro p hp
    obtain ⟨raw, hraw, haccept⟩ := mem_built hbuild hp
    cases hbuilt raw hraw with
    | upsert r =>
      rw [accept_upsertRecord haccept]
      refine ⟨fun e heq => (by cases heq), fun e props heq => ?_⟩
      cases heq
      exact ⟨r, hraw, rfl, rfl⟩
    | delete r =>
      rw [accept_deleteRecord haccept]
      exact ⟨fun e heq => (by cases heq), fun e props heq => (by cases heq)⟩
    | node label id properties embedding =>
      obtain ⟨map, -, rfl⟩ := accept_upsertNode haccept
      exact ⟨fun e heq => (by cases heq), fun e props heq => (by cases heq)⟩
    | drop label id =>
      rw [accept_deleteNode haccept]
      exact ⟨fun e heq => (by cases heq), fun e props heq => (by cases heq)⟩
  have hgives : ∀ c, ∀ p ∈ ps, Gives c p → ∃ id, upsertRecord (governedBy c id) ∈ raws ∧
      p = .upsertEdge (governedBy c id).base ∅ := by
    intro c p hp hgives
    cases p with
    | upsertEdge e props =>
      obtain ⟨r, hr, rfl, rfl⟩ := (hshape _ hp).2 e props rfl
      have hrecord : r = governedBy c r.targetId := hgives
      exact ⟨r.targetId, hrecord ▸ hr, by rw [← hrecord]⟩
    | _ => exact absurd hgives id
  refine fair_of_free (fun p hp => (hshape p hp).1) (fun e props hmem => ?_) (fun hg c p hp hc => ?_) fun hg c => ?_
  · obtain ⟨r, -, rfl, -⟩ := (hshape _ hmem).2 e props rfl
    rfl
  · obtain ⟨id, hid, -⟩ := hgives c p hp hc
    exact hfree hg c id hid
  · by_cases hany : ∃ p ∈ ps, Gives c p
    · obtain ⟨p, hp, hc⟩ := hany
      obtain ⟨id, hid, -⟩ := hgives c p hp hc
      refine ⟨(governedBy c id).base, fun q hq hc' => ?_⟩
      obtain ⟨id', hid', rfl⟩ := hgives c q hq hc'
      rw [hsole hg c id id' hid hid']
      exact ⟨∅, rfl⟩
    · exact ⟨(governedBy c "").base, fun q hq hc' => absurd ⟨q, hq, hc'⟩ hany⟩

theorem upsertRecord_injective {e e' : EdgeRecord} (h : upsertRecord e = upsertRecord e') : e = e' := by
  cases e
  cases e'
  simp only [upsertRecord, EdgeRecord.raw, RawPrimitive.upsertEdge.injEq, RawEdge.mk.injEq, Prod.mk.injEq] at h
  simp [h]

/-- A built group without a `GOVERNED_BY` upsert. -/
theorem fair_of_ungoverned (hbuild : buildGroup raws = some ps) (hbuilt : ∀ raw ∈ raws, Built raw)
    (hno : ∀ c id, upsertRecord (governedBy c id) ∉ raws) : Fair g ps :=
  fair_of_built hbuild hbuilt (fun _ c id h => absurd h (hno c id)) fun _ c id _ h => absurd h (hno c id)

theorem class_ne_governed {c : EdgeClass} {source target x id : String} :
    upsertRecord (classEdge c source target) ≠ upsertRecord (governedBy x id) := by
  intro h
  have htype : c.relType = "GOVERNED_BY" := congrArg EdgeRecord.relType (upsertRecord_injective h)
  cases c <;> exact absurd htype (by decide)

/-- The release deletes an edge. -/
theorem fair_release {capabilityId policyId : String}
    (hbuild : buildGroup (releasePrimitives capabilityId policyId) = some ps) : Fair g ps := by
  refine fair_of_ungoverned hbuild (fun raw hraw => ?_) fun c id hmem => ?_
  · rw [List.mem_singleton.1 hraw]
    exact .delete _
  · have heq := List.mem_singleton.1 hmem
    cases heq

/-- The survivor of a merge is given the Policy of the absorbed Capability where it has none. -/
theorem fair_merge {scan : ScanOrder} {survivorId absorbedId : String} {reviewId : Option String} {state : MergeState}
    (hread : readCapabilityMergeState scan g₀ survivorId absorbedId = some state)
    (hbuild : buildGroup (capabilityMergePrimitives state survivorId absorbedId reviewId) = some ps)
    (hsame : SameButIdentities g₀ g) : Fair g ps := by
  have hstate := mergeStateOf_read hread
  have hgoverned : ∀ c id, upsertRecord (governedBy c id) ∈ capabilityMergePrimitives state survivorId absorbedId reviewId →
      c = survivorId ∧ state.survivorPolicies = [] ∧ id ∈ governors g absorbedId := by
    intro c id hmem
    rcases List.mem_append.1 hmem with hmem | hmem
    · rcases List.mem_append.1 hmem with hmem | hmem
      · rcases List.mem_append.1 hmem with hmem | hmem
        · obtain ⟨cls, -, hmem⟩ := List.mem_flatMap.1 hmem
          obtain ⟨source, -, heq⟩ := List.mem_map.1 hmem
          exact absurd heq class_ne_governed
        · split at hmem
          · rename_i hnone
            obtain ⟨p, hp, heq⟩ := List.mem_map.1 hmem
            have hrecord := upsertRecord_injective heq
            have hc : survivorId = c := congrArg EdgeRecord.sourceId hrecord
            have hid : p.id = id := congrArg EdgeRecord.targetId hrecord
            refine ⟨hc.symm, hnone, ?_⟩
            rw [hsame.governors, mem_governors]
            exact (hstate.absorbedPolicies id).1 ⟨p, distinctPolicies_mem hp, hid⟩
          · cases hmem
      · simp only [List.mem_cons, List.not_mem_nil, or_false] at hmem
        rcases hmem with heq | heq
        · cases heq
        · cases heq
    · obtain ⟨x, -, heq⟩ := Option.map_eq_some_iff.1 (Option.mem_toList.1 hmem)
      cases heq
  refine fair_of_built hbuild (fun raw hraw => ?_) (fun hg c id hmem => ?_) fun hg c id id' hmem hmem' => ?_
  · rcases List.mem_append.1 hraw with hraw | hraw
    · rcases List.mem_append.1 hraw with hraw | hraw
      · rcases List.mem_append.1 hraw with hraw | hraw
        · obtain ⟨cls, -, hraw⟩ := List.mem_flatMap.1 hraw
          obtain ⟨source, -, rfl⟩ := List.mem_map.1 hraw
          exact .upsert _
        · split at hraw
          · obtain ⟨p, -, rfl⟩ := List.mem_map.1 hraw
            exact .upsert _
          · cases hraw
      · simp only [List.mem_cons, List.not_mem_nil, or_false] at hraw
        rcases hraw with rfl | rfl
        · exact .node _ _ _ _
        · exact .drop _ _
    · obtain ⟨x, -, rfl⟩ := Option.map_eq_some_iff.1 (Option.mem_toList.1 hraw)
      exact .drop _ _
  · obtain ⟨rfl, hnone, -⟩ := hgoverned c id hmem
    rw [hsame.governors, Multiset.eq_zero_iff_forall_notMem]
    intro x hx
    obtain ⟨p, hp, -⟩ := (hstate.survivorPolicies x).2 (mem_governors.1 hx)
    rw [hnone] at hp
    cases hp
  · obtain ⟨-, -, hid⟩ := hgoverned c id hmem
    obtain ⟨-, -, hid'⟩ := hgoverned c id' hmem'
    have hsingle := singleton_of_mem hid (hg.one absorbedId)
    rw [hsingle] at hid'
    exact (Multiset.mem_singleton.1 hid').symm

/-- The Capability an unmerge brings back was not there, so nothing governed it. -/
theorem fair_unmerge {scan : ScanOrder} {inputs : CapabilityUnmergeInputs} {write : CapabilityUnmergeWrite}
    {state : CapabilityUnmergeState} (hread : readCapabilityUnmergeState scan g₀ inputs = some state)
    (hguard : capabilityUnmergeGuardHolds state write inputs.survivorId = true)
    (hbuild : buildGroup (capabilityUnmergePrimitives write inputs.absorbedId inputs.survivorId) = some ps)
    (hsame : SameButIdentities g₀ g) : Fair g ps := by
  have habsent : capabilityRef inputs.absorbedId ∉ g.nodes := by
    rw [hsame.mem]
    intro hin
    have hnone : state.absorbedStatus = none := by
      simp only [capabilityUnmergeGuardHolds, Bool.and_eq_true] at hguard
      exact Option.isNone_iff_eq_none.1 hguard.1.1.1.1.1
    simp only [readCapabilityUnmergeState, Option.bind_eq_bind, Option.bind_eq_some_iff, Option.pure_def,
      Option.some.injEq] at hread
    obtain ⟨survivor, _, absorbed, habsorbed, _, _, _, _, hstate⟩ := hread
    rw [← hstate] at hnone
    have hno : absorbed = none := Option.map_eq_none_iff.1 hnone
    rw [hno] at habsorbed
    unfold readNode at habsorbed
    split at habsorbed
    · rename_i hget
      rw [ExtTreeMap.mem_iff_isSome_getElem?] at hin
      simp only [capabilityRef, hget, Option.isSome_none, Bool.false_eq_true] at hin
    · obtain ⟨x, -, hx⟩ := Option.map_eq_some_iff.1 habsorbed
      cases hx
  have hgoverned : ∀ c id, upsertRecord (governedBy c id) ∈
      capabilityUnmergePrimitives write inputs.absorbedId inputs.survivorId →
      c = inputs.absorbedId ∧ write.restorePolicyId = some id := by
    intro c id hmem
    rcases List.mem_append.1 hmem with hmem | hmem
    · rcases List.mem_append.1 hmem with hmem | hmem
      · rcases List.mem_append.1 hmem with hmem | hmem
        · rcases List.mem_append.1 hmem with hmem | hmem
          · have heq := List.mem_singleton.1 hmem
            cases heq
          · obtain ⟨cls, -, hmem⟩ := List.mem_flatMap.1 hmem
            obtain ⟨source, -, heq⟩ := List.mem_map.1 hmem
            exact absurd heq class_ne_governed
        · obtain ⟨cls, -, hmem⟩ := List.mem_flatMap.1 hmem
          obtain ⟨source, -, heq⟩ := List.mem_map.1 hmem
          cases heq
      · unfold governedPrimitives at hmem
        split at hmem
        · cases hmem
        · rename_i policyId hpolicy
          rcases List.mem_append.1 hmem with hmem | hmem
          · have hrecord := upsertRecord_injective (List.mem_singleton.1 hmem)
            have hc : c = inputs.absorbedId := congrArg EdgeRecord.sourceId hrecord
            have hid : id = policyId := congrArg EdgeRecord.targetId hrecord
            exact ⟨hc, hid ▸ hpolicy⟩
          · split at hmem
            · have heq := List.mem_singleton.1 hmem
              cases heq
            · cases hmem
    · have heq := List.mem_singleton.1 hmem
      cases heq
  refine fair_of_built hbuild (fun raw hraw => ?_) (fun hg c id hmem => ?_) fun hg c id id' hmem hmem' => ?_
  · rcases List.mem_append.1 hraw with hraw | hraw
    · rcases List.mem_append.1 hraw with hraw | hraw
      · rcases List.mem_append.1 hraw with hraw | hraw
        · rcases List.mem_append.1 hraw with hraw | hraw
          · rw [List.mem_singleton.1 hraw]
            exact .node _ _ _ _
          · obtain ⟨cls, -, hraw⟩ := List.mem_flatMap.1 hraw
            obtain ⟨source, -, rfl⟩ := List.mem_map.1 hraw
            exact .upsert _
        · obtain ⟨cls, -, hraw⟩ := List.mem_flatMap.1 hraw
          obtain ⟨source, -, rfl⟩ := List.mem_map.1 hraw
          exact .delete _
      · unfold governedPrimitives at hraw
        split at hraw
        · cases hraw
        · rcases List.mem_append.1 hraw with hraw | hraw
          · rw [List.mem_singleton.1 hraw]
            exact .upsert _
          · split at hraw
            · rw [List.mem_singleton.1 hraw]
              exact .delete _
            · cases hraw
    · rw [List.mem_singleton.1 hraw]
      exact .drop _ _
  · rw [(hgoverned c id hmem).1]
    exact governors_absent habsent
  · have hid := (hgoverned c id hmem).2
    have hid' := (hgoverned c id' hmem').2
    exact Option.some.inj (hid.symm.trans hid')

/-- A split names no governing edge. -/
theorem fair_split {plan : CapabilitySplitPlan} {createdAt : String}
    (hbuild : buildCapabilitySplitGroup plan createdAt = some ps) : Fair g ps := by
  have hclass : ∀ (c : EdgeClass) (source x : String),
      RawPrimitive.upsertEdge (classRawEdge c source x) [] = upsertRecord (classEdge c source x) := fun _ _ _ => rfl
  refine fair_of_ungoverned hbuild (fun raw hraw => ?_) fun c id hmem => ?_
  · rcases List.mem_append.1 hraw with hraw | hraw
    · rcases List.mem_append.1 hraw with hraw | hraw
      · rcases List.mem_append.1 hraw with hraw | hraw
        · rw [List.mem_singleton.1 hraw]
          exact .node _ _ _ _
        · obtain ⟨cls, -, hraw⟩ := List.mem_flatMap.1 hraw
          obtain ⟨source, -, rfl⟩ := List.mem_map.1 hraw
          rw [hclass]
          exact .upsert _
      · obtain ⟨cls, -, hraw⟩ := List.mem_flatMap.1 hraw
        obtain ⟨source, -, rfl⟩ := List.mem_map.1 hraw
        exact .delete (classEdge cls source plan.preview.aId)
    · rw [List.mem_singleton.1 hraw]
      exact .drop _ _
  · rcases List.mem_append.1 hmem with hmem | hmem
    · rcases List.mem_append.1 hmem with hmem | hmem
      · rcases List.mem_append.1 hmem with hmem | hmem
        · have heq := List.mem_singleton.1 hmem
          cases heq
        · obtain ⟨cls, -, hmem⟩ := List.mem_flatMap.1 hmem
          obtain ⟨source, -, heq⟩ := List.mem_map.1 hmem
          rw [hclass] at heq
          exact class_ne_governed heq
      · obtain ⟨cls, -, hmem⟩ := List.mem_flatMap.1 hmem
        obtain ⟨source, -, heq⟩ := List.mem_map.1 hmem
        cases heq
    · have heq := List.mem_singleton.1 hmem
      cases heq

variable {sha256 : Bytes → String}

/-- **The group of a cleanup write is fair** on the graph its guard read, stamped or not. -/
theorem plan_fair {scan : ScanOrder} {write : CleanupWrite} (hplan : write.plan sha256 scan g₀ = some ps)
    (hsame : SameButIdentities g₀ g) : Fair g ps := by
  cases write with
  | release capabilityId policyId =>
    obtain ⟨state, -, hbuild⟩ := Option.bind_eq_some_iff.1 hplan
    split at hbuild
    · exact fair_release hbuild
    · cases hbuild
  | merge survivorId absorbedId expected reviewId =>
    obtain ⟨state, hread, hbuild⟩ := Option.bind_eq_some_iff.1 hplan
    split at hbuild
    · exact fair_merge hread hbuild hsame
    · cases hbuild
  | unmerge inputs write =>
    obtain ⟨state, hread, hbuild⟩ := Option.bind_eq_some_iff.1 hplan
    split at hbuild
    · rename_i hguard
      exact fair_unmerge hread hguard hbuild hsame
    · cases hbuild
  | split readState stateDigest createdAt =>
    obtain ⟨state, -, hbuild⟩ := Option.bind_eq_some_iff.1 hplan
    split at hbuild
    · cases hbuild
    · split at hbuild
      · exact fair_split hbuild
      · cases hbuild

/-- **Every cleanup write submits only fit groups.** -/
theorem writes_keep {plan : Graph → Option (List Primitive)}
    (hplan : ∀ g₀ g ps, plan g₀ = some ps → SameButIdentities g₀ g → Fair g ps) :
    (guardedWrite gw plan).safe (carry gw) (Drift gw) (Fit gw) (fun _ _ => True) s := by
  refine Flow.safe_bind (Flow.safe_get fun s₁ hs₁ => Flow.safe_bind (Flow.safe_get fun s₂ hs₂ => ?_))
  cases hgroup : plan s₂.graph with
  | none => exact Flow.safe_halt
  | some primitives =>
    refine Flow.safe_bind (Flow.safe_asking (keeps_ensureStamped fun s₃ s₄ hs₃ hs₄ hdue => ?_))
    unfold submitCleanupGroup
    split
    · trivial
    · refine Flow.safe_bind (Flow.safe_ask (fun s₅ hs₅ hexpected => ?_) fun answer _ _ _ _ => ?_)
      · have hdue₅ : due gw s₅ = 0 := due_zero hs₅ hdue
        have hposition : s₅.position = s₁.position + due gw s₃ := by
          have heq : decide (s₁.position + due gw s₃ = s₅.position) = true := hexpected
          exact (of_decide_eq_true heq).symm
        have hsame := same_at_submit hs₂ hs₃ (hs₄.trans _ _ _ hs₅) hdue₅ hposition
        refine ⟨.inr ⟨hdue₅, hplan _ _ _ hgroup hsame⟩, ?_⟩
        intro group actor id c heq
        cases heq
      · cases answer <;> trivial

end Cleanup

end PolicySystem.Governance
