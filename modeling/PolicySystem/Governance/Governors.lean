import PolicySystem.Cleanup.Unmerge
import PolicySystem.Gateway.EdgeKeys
import PolicySystem.PolicyLifecycle.Sequential

/-!
# The governors of a Capability

The `GOVERNED_BY` edges of the graph, parallel ones counted each, and what a group does to them.

* `Governed`: no Capability has two, and each is under the identity of its ends or under none;
* `fair_of_free`: a group that gives governors only to Capabilities without one, each from one Policy, keeps that;
* `repoint_exact`: what the group of a fork approval leaves.
-/

namespace PolicySystem.Governance

open Std (ExtTreeMap)
open PropertyGraph PolicyLifecycle

/-- A `GOVERNED_BY` edge of the Capability. -/
def IsGovernor (c : String) (k : EdgeKey) : Prop := k.record = governedBy c k.target.id

instance (c : String) (k : EdgeKey) : Decidable (IsGovernor c k) := inferInstanceAs (Decidable (_ = _))

/-- The keys of the edges that govern the Capability. -/
def governorKeys (g : Graph) (c : String) : Multiset EdgeKey := (edgeKeys g).filter (IsGovernor c)

/-- The Policies that govern the Capability. -/
def governors (g : Graph) (c : String) : Multiset String := (governorKeys g c).map fun k => k.target.id

/-- **No Capability has two governors**, and every governing edge has the standard identity or none. -/
structure Governed (g : Graph) : Prop where
  one : ∀ c, (governors g c).card ≤ 1
  named : ∀ c k, k ∈ governorKeys g c → k.identity = none ∨ k.Standard

section Keys

variable {g g' : Graph} {c : String} {k : EdgeKey}

theorem mem_governorKeys : k ∈ governorKeys g c ↔ k ∈ edgeKeys g ∧ IsGovernor c k := Multiset.mem_filter

theorem mem_governors {id : String} : id ∈ governors g c ↔ Shows g (governedBy c id) := by
  rw [shows_iff_key, governors, Multiset.mem_map]
  constructor
  · rintro ⟨k, hk, rfl⟩
    obtain ⟨hin, hgov⟩ := mem_governorKeys.1 hk
    exact ⟨k, hin, hgov⟩
  · rintro ⟨k, hk, hrecord⟩
    have hid : k.target.id = id := congrArg EdgeRecord.targetId hrecord
    refine ⟨k, mem_governorKeys.2 ⟨hk, ?_⟩, hid⟩
    rw [IsGovernor, hid]
    exact hrecord

theorem card_governors : (governors g c).card = (governorKeys g c).card := Multiset.card_map _ _

theorem governorKeys_eq_zero : governorKeys g c = 0 ↔ governors g c = 0 := by
  rw [← Multiset.card_eq_zero, ← card_governors, Multiset.card_eq_zero]

/-- A Capability that is not there has no governor. -/
theorem governors_absent (h : capabilityRef c ∉ g.nodes) : governors g c = 0 := by
  rw [Multiset.eq_zero_iff_forall_notMem]
  intro id hid
  obtain ⟨k, hk, hrecord⟩ := shows_iff_key.1 (mem_governors.1 hid)
  have hsource : k.source = capabilityRef c := by
    have := congrArg EdgeRecord.source hrecord
    exact this
  exact h (hsource ▸ (ends_of_mem hk).1)

end Keys

/-! ## One primitive -/

/-- The primitive gives the Capability a governor. -/
def Gives (c : String) : Primitive → Prop
  | .upsertEdge e _ => IsGovernor c e.edgeKey
  | _ => False

/-- The primitive is no stamp. -/
def Settled (p : Primitive) : Prop := ∀ e, p ≠ .stampEdgeIdentity e

section Groups

variable {g g' : Graph} {c : String} {p : Primitive} {ps qs : List Primitive} {e : EdgeBase}

/-- What gives a Capability no governor takes, at most, some away. -/
theorem applyOne_governorKeys_le (hp : Settled p) (hno : ¬ Gives c p) :
    governorKeys (applyOne g p) c ≤ governorKeys g c := by
  unfold governorKeys
  cases p with
  | upsertNode n props e => rw [edgeKeys_upsertNode]
  | mergeProperty n props => rw [edgeKeys_mergeProperty]
  | removeProperty n keys => rw [edgeKeys_removeProperty]
  | deleteEdge e =>
    rw [edgeKeys_deleteEdge]
    exact Multiset.filter_le_filter _ (Multiset.filter_le _ _)
  | deleteNode n =>
    rw [edgeKeys_deleteNode]
    exact Multiset.filter_le_filter _ (Multiset.filter_le _ _)
  | stampEdgeIdentity e => exact absurd rfl (hp e)
  | upsertEdge e props =>
    rw [edgeKeys_upsertEdge]
    split
    · have hother : ¬ IsGovernor c e.edgeKey := hno
      rw [Multiset.filter_cons_of_neg _ hother]
    · exact le_rfl

/-- Where at most one edge governs, under the key that is given, at most that one does afterwards. -/
theorem applyOne_governorKeys_single (hp : Settled p) (hgives : Gives c p → ∃ props, p = .upsertEdge e props)
    (h : governorKeys g c ≤ {e.edgeKey}) : governorKeys (applyOne g p) c ≤ {e.edgeKey} := by
  by_cases hg : Gives c p
  · obtain ⟨props, rfl⟩ := hgives hg
    have hgov : IsGovernor c e.edgeKey := hg
    unfold governorKeys at h ⊢
    rw [edgeKeys_upsertEdge]
    split
    · rename_i hnew
      have hnone : (edgeKeys g).filter (IsGovernor c) = 0 := by
        rw [Multiset.eq_zero_iff_forall_notMem]
        intro k hk
        have hkey : k = e.edgeKey := Multiset.mem_singleton.1 (Multiset.mem_of_le h hk)
        exact hnew.2 (hkey ▸ (Multiset.mem_filter.1 hk).1)
      rw [Multiset.filter_cons_of_pos _ hgov, hnone]
      exact le_rfl
    · exact h
  · exact (applyOne_governorKeys_le hp hg).trans h

theorem applyAll_governorKeys_le (hsettled : ∀ p ∈ ps, Settled p) (hno : ∀ p ∈ ps, ¬ Gives c p) :
    governorKeys (applyAll g ps) c ≤ governorKeys g c := by
  induction ps generalizing g with
  | nil => exact le_rfl
  | cons p ps ih =>
    rw [applyAll_cons]
    have hrest := @ih (applyOne g p) (fun q hq => hsettled q (by simp [hq])) fun q hq => hno q (by simp [hq])
    exact hrest.trans (applyOne_governorKeys_le (hsettled p (by simp)) (hno p (by simp)))

theorem applyAll_governorKeys_single (hsettled : ∀ p ∈ ps, Settled p)
    (hgives : ∀ p ∈ ps, Gives c p → ∃ props, p = .upsertEdge e props) (h : governorKeys g c ≤ {e.edgeKey}) :
    governorKeys (applyAll g ps) c ≤ {e.edgeKey} := by
  induction ps generalizing g with
  | nil => exact h
  | cons p ps ih =>
    rw [applyAll_cons]
    refine ih (fun q hq => hsettled q (by simp [hq])) (fun q hq => hgives q (by simp [hq])) ?_
    exact applyOne_governorKeys_single (hsettled p (by simp)) (hgives p (by simp)) h

/-- A governing edge after a primitive was there before, or is the one it upserts. -/
theorem applyOne_key {k : EdgeKey} (hp : Settled p) (h : k ∈ edgeKeys (applyOne g p)) :
    k ∈ edgeKeys g ∨ ∃ e props, p = .upsertEdge e props ∧ k = e.edgeKey := by
  cases p with
  | upsertNode n props e =>
    rw [edgeKeys_upsertNode] at h
    exact .inl h
  | mergeProperty n props =>
    rw [edgeKeys_mergeProperty] at h
    exact .inl h
  | removeProperty n keys =>
    rw [edgeKeys_removeProperty] at h
    exact .inl h
  | deleteEdge e =>
    rw [edgeKeys_deleteEdge] at h
    exact .inl (Multiset.mem_filter.1 h).1
  | deleteNode n =>
    rw [edgeKeys_deleteNode] at h
    exact .inl (Multiset.mem_filter.1 h).1
  | stampEdgeIdentity e => exact absurd rfl (hp e)
  | upsertEdge e props =>
    rw [edgeKeys_upsertEdge] at h
    split at h
    · rcases Multiset.mem_cons.1 h with hk | hk
      · exact .inr ⟨e, props, rfl, hk⟩
      · exact .inl hk
    · exact .inl h

theorem applyAll_key {k : EdgeKey} (hsettled : ∀ p ∈ ps, Settled p) (h : k ∈ edgeKeys (applyAll g ps)) :
    k ∈ edgeKeys g ∨ ∃ e props, .upsertEdge e props ∈ ps ∧ k = e.edgeKey := by
  induction ps generalizing g with
  | nil => exact .inl h
  | cons p ps ih =>
    rcases ih (fun q hq => hsettled q (by simp [hq])) h with hone | ⟨e, props, hmem, hk⟩
    · rcases applyOne_key (hsettled p (by simp)) hone with hold | ⟨e, props, rfl, hk⟩
      · exact .inl hold
      · exact .inr ⟨e, props, by simp, hk⟩
    · exact .inr ⟨e, props, by simp [hmem], hk⟩

/-! ## Groups -/

/-- **A group that keeps the governors single**: no stamps, standard identities, and one governor a Capability after it. -/
structure Fair (g : Graph) (ps : List Primitive) : Prop where
  settled : ∀ p ∈ ps, Settled p
  standard : ∀ e props, .upsertEdge e props ∈ ps → e.edgeKey.Standard
  one : Governed g → ∀ c, (governors (applyAll g ps) c).card ≤ 1

theorem Fair.governed (h : Fair g ps) (hg : Governed g) : Governed (applyAll g ps) where
  one := h.one hg
  named c k hk := by
    obtain ⟨hin, hgov⟩ := mem_governorKeys.1 hk
    rcases applyAll_key h.settled hin with hold | ⟨e, props, hmem, rfl⟩
    · exact hg.named c k (mem_governorKeys.2 ⟨hold, hgov⟩)
    · exact .inr (h.standard e props hmem)

/-- **A group that gives a governor only to a Capability without one**, from one Policy. -/
theorem fair_of_free (hsettled : ∀ p ∈ ps, Settled p)
    (hstandard : ∀ e props, .upsertEdge e props ∈ ps → e.edgeKey.Standard)
    (hfree : Governed g → ∀ c, ∀ p ∈ ps, Gives c p → governors g c = 0)
    (hsole : Governed g → ∀ c, ∃ e, ∀ p ∈ ps, Gives c p → ∃ props, p = .upsertEdge e props) : Fair g ps := by
  refine ⟨hsettled, hstandard, fun hg c => ?_⟩
  rw [card_governors]
  by_cases hgives : ∃ p ∈ ps, Gives c p
  · obtain ⟨p, hp, hc⟩ := hgives
    obtain ⟨e, he⟩ := hsole hg c
    have hnone : governorKeys g c = 0 := governorKeys_eq_zero.2 (hfree hg c p hp hc)
    have hafter : governorKeys (applyAll g ps) c ≤ {e.edgeKey} :=
      applyAll_governorKeys_single hsettled he (hnone ▸ Multiset.zero_le _)
    exact Multiset.card_le_card hafter
  · have hno : ∀ p ∈ ps, ¬ Gives c p := fun p hp hc => hgives ⟨p, hp, hc⟩
    have hafter := Multiset.card_le_card (applyAll_governorKeys_le (g := g) hsettled hno)
    have hbefore := hg.one c
    rw [card_governors] at hbefore
    omega

/-- A group that gives no Capability a governor. -/
theorem fair_of_quiet (hsettled : ∀ p ∈ ps, Settled p)
    (hstandard : ∀ e props, .upsertEdge e props ∈ ps → e.edgeKey.Standard) (hquiet : ∀ c, ∀ p ∈ ps, ¬ Gives c p) :
    Fair g ps :=
  fair_of_free hsettled hstandard (fun _ c p hp hc => absurd hc (hquiet c p hp))
    fun _ c => ⟨(governedBy c "").base, fun p hp hc => absurd hc (hquiet c p hp)⟩

end Groups

/-! ## A fork approval -/

section Repoint

variable {g : Graph} {c policyId priorId : String}

/-- Only the edge under its own identity governs, and it is deleted. -/
theorem deleted_governors {ids : List String} (hc : c ∈ ids) (hgov : governors g c = {priorId})
    (hstandard : ∀ k ∈ governorKeys g c, k.Standard) :
    governorKeys (applyAll g (ids.map fun c => .deleteEdge (edgeBetween "GOVERNED_BY" (capabilityRef c)
      (policyRef priorId)))) c = 0 := by
  have hblock : (ids.map fun c => Primitive.deleteEdge (edgeBetween "GOVERNED_BY" (capabilityRef c) (policyRef priorId))) =
      (ids.map fun c => governedBy c priorId).map fun e => .deleteEdge e.base := by
    rw [List.map_map]
    rfl
  rw [hblock, Multiset.eq_zero_iff_forall_notMem]
  intro k hk
  have hsettled : ∀ p ∈ ((ids.map fun c => governedBy c priorId).map fun e => Primitive.deleteEdge e.base), Settled p := by
    intro p hp e heq
    obtain ⟨r, -, rfl⟩ := List.mem_map.1 hp
    cases heq
  have hno : ∀ p ∈ ((ids.map fun c => governedBy c priorId).map fun e => Primitive.deleteEdge e.base), ¬ Gives c p := by
    intro p hp hgives
    obtain ⟨r, -, rfl⟩ := List.mem_map.1 hp
    exact hgives
  have hold : k ∈ governorKeys g c := Multiset.mem_of_le (applyAll_governorKeys_le hsettled hno) hk
  obtain ⟨hin, hisgov⟩ := mem_governorKeys.1 hk
  have hid : k.target.id = priorId := by
    have hmem : k.target.id ∈ governors g c := Multiset.mem_map_of_mem _ hold
    rw [hgov] at hmem
    exact Multiset.mem_singleton.1 hmem
  have hrecord : k.record = governedBy c priorId := by
    rw [IsGovernor, hid] at hisgov
    exact hisgov
  have hzero := @deletes_edgesAt g (ids.map fun c => governedBy c priorId) k
  rw [if_pos ⟨hrecord ▸ List.mem_map_of_mem hc, hstandard k hold⟩] at hzero
  exact mem_edgeKeys.1 hin hzero

/-- An upserted edge with both ends is there, and stays where nothing is deleted. -/
theorem upserted_key {e : EdgeBase} {props : PropertyMap} {ps : List Primitive} (hmem : .upsertEdge e props ∈ ps)
    (hkeeps : ∀ p ∈ ps, (∀ n, p ≠ .deleteNode n) ∧ (∀ e, p ≠ .deleteEdge e) ∧ Settled p)
    (hsource : e.source ∈ g.nodes) (htarget : e.target ∈ g.nodes) : e.edgeKey ∈ edgeKeys (applyAll g ps) := by
  have hstays : ∀ (ps : List Primitive) (g : Graph), (∀ p ∈ ps, (∀ n, p ≠ .deleteNode n) ∧ (∀ e, p ≠ .deleteEdge e) ∧
      Settled p) → e.edgeKey ∈ edgeKeys g → e.edgeKey ∈ edgeKeys (applyAll g ps) := by
    intro ps
    induction ps with
    | nil => exact fun g _ h => h
    | cons p ps ih =>
      intro g hall h
      rw [applyAll_cons]
      refine ih _ (fun q hq => hall q (by simp [hq])) ?_
      obtain ⟨hnode, hedge, hstamp⟩ := hall p (by simp)
      cases p with
      | upsertNode n props e => rwa [edgeKeys_upsertNode]
      | mergeProperty n props => rwa [edgeKeys_mergeProperty]
      | removeProperty n keys => rwa [edgeKeys_removeProperty]
      | deleteEdge e => exact absurd rfl (hedge e)
      | deleteNode n => exact absurd rfl (hnode n)
      | stampEdgeIdentity e => exact absurd rfl (hstamp e)
      | upsertEdge f props =>
        rw [edgeKeys_upsertEdge]
        split
        · exact Multiset.mem_cons_of_mem h
        · exact h
  induction ps generalizing g with
  | nil => cases hmem
  | cons p ps ih =>
    rw [applyAll_cons]
    have hrest : ∀ q ∈ ps, (∀ n, q ≠ .deleteNode n) ∧ (∀ e, q ≠ .deleteEdge e) ∧ Settled q :=
      fun q hq => hkeeps q (by simp [hq])
    rcases List.mem_cons.1 hmem with rfl | hmem
    · refine hstays ps _ hrest ?_
      rw [edgeKeys_upsertEdge]
      have hends : g.hasEnds e.edgeKey = true := by
        simp [PropertyGraph.hasEnds, EdgeBase.edgeKey, hsource, htarget]
      by_cases hin : e.edgeKey ∈ edgeKeys g
      · rw [if_neg fun hno => hno.2 hin]
        exact hin
      · rw [if_pos ⟨hends, hin⟩]
        exact Multiset.mem_cons_self _ _
    · have hnode := (hkeeps p (by simp)).1
      exact ih hmem hrest (applyOne_stays hnode hsource) (applyOne_stays hnode htarget)

/-- **What a fork approval leaves**: a moved Capability is governed by the fork alone. -/
theorem repoint_exact {ids : List String} {rest : List Primitive} (hgov : ∀ c ∈ ids, governors g c = {priorId})
    (hstandard : ∀ c ∈ ids, ∀ k ∈ governorKeys g c, k.Standard) (hpolicy : policyRef policyId ∈ g.nodes)
    (hkeeps : ∀ p ∈ rest, (∀ n, p ≠ .deleteNode n) ∧ (∀ e, p ≠ .deleteEdge e) ∧ Settled p)
    (hquiet : ∀ c, ∀ p ∈ rest, ¬ Gives c p) (hc : c ∈ ids.eraseDups) :
    governors (applyAll g (repointPrimitives policyId priorId ids ++ rest)) c = {policyId} := by
  have hin : c ∈ ids := List.mem_eraseDups.1 hc
  let e := edgeBetween "GOVERNED_BY" (capabilityRef c) (policyRef policyId)
  let deletes := ids.eraseDups.map fun c =>
    Primitive.deleteEdge (edgeBetween "GOVERNED_BY" (capabilityRef c) (policyRef priorId))
  have hcapability : capabilityRef c ∈ g.nodes := by
    have hprior : priorId ∈ governors g c := by
      rw [hgov c hin]
      exact Multiset.mem_singleton_self _
    obtain ⟨k, hk, hrecord⟩ := shows_iff_key.1 (mem_governors.1 hprior)
    have hsource : k.source = capabilityRef c := congrArg EdgeRecord.source hrecord
    exact hsource ▸ (ends_of_mem hk).1
  have hgone : governorKeys (applyAll g deletes) c = 0 :=
    deleted_governors hc (hgov c hin) (hstandard c hin)
  have hnodes : ∀ n, n ∈ g.nodes → n ∈ (applyAll g deletes).nodes := by
    intro n hn
    have hsame := deletes_nodes g (ids.eraseDups.map fun c => governedBy c priorId)
    rw [List.map_map] at hsame
    exact hsame ▸ hn
  have hall : ∀ p ∈ claimPrimitives policyId ids.eraseDups ++ rest,
      (∀ n, p ≠ .deleteNode n) ∧ (∀ e, p ≠ .deleteEdge e) ∧ Settled p := by
    intro p hp
    rcases List.mem_append.1 hp with hp | hp
    · obtain ⟨x, -, rfl⟩ := List.mem_map.1 hp
      refine ⟨fun n h => ?_, fun e h => ?_, fun e h => ?_⟩ <;> cases h
    · exact hkeeps p hp
  have hmem : Primitive.upsertEdge e ∅ ∈ claimPrimitives policyId ids.eraseDups ++ rest :=
    List.mem_append_left _ (List.mem_map_of_mem hc)
  have hthere : e.edgeKey ∈ edgeKeys (applyAll (applyAll g deletes) (claimPrimitives policyId ids.eraseDups ++ rest)) :=
    upserted_key hmem hall (hnodes _ hcapability) (hnodes _ hpolicy)
  have hsingle : governorKeys (applyAll (applyAll g deletes) (claimPrimitives policyId ids.eraseDups ++ rest)) c ≤
      {e.edgeKey} := by
    refine applyAll_governorKeys_single (fun p hp => (hall p hp).2.2) (fun p hp hgives => ?_) (hgone ▸ Multiset.zero_le _)
    rcases List.mem_append.1 hp with hp | hp
    · obtain ⟨x, -, rfl⟩ := List.mem_map.1 hp
      have hx : x = c := congrArg EdgeRecord.sourceId hgives
      rw [hx]
      exact ⟨∅, rfl⟩
    · exact absurd hgives (hquiet c p hp)
  have hkey : governorKeys (applyAll (applyAll g deletes) (claimPrimitives policyId ids.eraseDups ++ rest)) c =
      {e.edgeKey} := by
    refine le_antisymm hsingle (Multiset.singleton_le.2 (mem_governorKeys.2 ⟨hthere, ?_⟩))
    rfl
  unfold repointPrimitives
  rw [List.append_assoc, applyAll_append, governors, hkey]
  rfl

end Repoint

/-! ## Stamps -/

/-- The graphs agree but for the identities of edges. -/
structure SameButIdentities (g g' : Graph) : Prop where
  nodes : ∀ n : NodeRef, g'.nodes[n]? = g.nodes[n]?
  records : (edgeKeys g').map EdgeKey.record = (edgeKeys g).map EdgeKey.record

section Stamps

variable {g g' g'' : Graph} {c : String}

theorem SameButIdentities.refl (g : Graph) : SameButIdentities g g := ⟨fun _ => rfl, rfl⟩

theorem SameButIdentities.trans (h : SameButIdentities g g') (h' : SameButIdentities g' g'') : SameButIdentities g g'' :=
  ⟨fun n => (h'.nodes n).trans (h.nodes n), h'.records.trans h.records⟩

theorem SameButIdentities.mem (h : SameButIdentities g g') {n : NodeRef} : n ∈ g'.nodes ↔ n ∈ g.nodes := by
  rw [ExtTreeMap.mem_iff_isSome_getElem?, ExtTreeMap.mem_iff_isSome_getElem?, h.nodes]

theorem governors_eq_records : governors g c =
    (((edgeKeys g).map EdgeKey.record).filter fun r => r = governedBy c r.targetId).map EdgeRecord.targetId := by
  unfold governors governorKeys
  rw [Multiset.filter_map, Multiset.map_map]
  rfl

theorem SameButIdentities.governors (h : SameButIdentities g g') : governors g' c = governors g c := by
  rw [governors_eq_records, governors_eq_records, h.records]

theorem sameButIdentities_stamp {e : EdgeBase} : SameButIdentities g (applyOne g (.stampEdgeIdentity e)) where
  nodes n := by rw [applyOne_stamp, stampEdge_nodes]
  records := by
    rw [edgeKeys_stamp, Multiset.map_map]
    refine Multiset.map_congr rfl fun k _ => ?_
    simp only [Function.comp]
    split
    · rename_i heq
      rw [heq]
      rfl
    · rfl

theorem sameButIdentities_stamps {edges : List EdgeBase} :
    SameButIdentities g (applyAll g (edges.map .stampEdgeIdentity)) := by
  induction edges generalizing g with
  | nil => exact .refl g
  | cons e edges ih => exact sameButIdentities_stamp.trans ih

/-- An edge stamped under the identity of its ends stays well named. -/
theorem stamps_governed {edges : List EdgeBase} (hstamped : ∀ e ∈ edges, e.unidentifiedKey.stamped = e)
    (hg : Governed g) : Governed (applyAll g (edges.map .stampEdgeIdentity)) := by
  refine ⟨fun c => ?_, fun c k hk => ?_⟩
  · rw [sameButIdentities_stamps.governors]
    exact hg.one c
  · have hkeys : ∀ (edges : List EdgeBase) (g : Graph), (∀ e ∈ edges, e.unidentifiedKey.stamped = e) →
        ∀ k ∈ edgeKeys (applyAll g (edges.map .stampEdgeIdentity)), k ∈ edgeKeys g ∨ k.Standard := by
      intro edges
      induction edges with
      | nil => exact fun g _ k hk => .inl hk
      | cons e edges ih =>
        intro g hall k hk
        rcases ih _ (fun f hf => hall f (by simp [hf])) k hk with hold | hstd
        · rw [edgeKeys_stamp] at hold
          obtain ⟨j, hj, heq⟩ := Multiset.mem_map.1 hold
          split at heq
          · refine .inr ?_
            have hself := hall e (by simp)
            rw [← heq, ← hself]
            rfl
          · rw [← heq]
            exact .inl hj
        · exact .inr hstd
    obtain ⟨hin, hgov⟩ := mem_governorKeys.1 hk
    rcases hkeys edges g hstamped k hin with hold | hstd
    · exact hg.named c k (mem_governorKeys.2 ⟨hold, hgov⟩)
    · exact .inr hstd

end Stamps

end PolicySystem.Governance
