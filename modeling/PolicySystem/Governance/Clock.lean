import PolicySystem.Governance.Governors
import PolicySystem.Governance.Writers

/-!
# The log position as a clock

What a submitted group does to the log position and to the number of edges that still lack an identity. Every writer
stamps those before its own group, so a group at the position its guard was read at, moved by the stamps, finds the graph
its guard read.

* `Fit`: what every group the writers submit meets;
* `Drift`: what the others may do meanwhile; `carry_drift`: each fit group stays within it.
-/

namespace PolicySystem.Governance

open Std (ExtTreeMap)
open Interleaved PropertyGraph PolicyLifecycle

section Scan

variable {allow : AllowList} {scan : ScanOrder} {g : Graph}

theorem scan_nodup : (scanUnidentifiedEdges allow scan g).Nodup := nodup_eraseDups _

/-- An edge without an identity was there before the group, and the group does not stamp it. -/
theorem scan_after {ps : List Primitive} {e : EdgeBase} (h : e ∈ scanUnidentifiedEdges allow scan (applyAll g ps)) :
    e ∈ scanUnidentifiedEdges allow scan g ∧ .stampEdgeIdentity e ∉ ps := by
  obtain ⟨hstamped, hedge, hallowed⟩ := mem_scanUnidentifiedEdges.1 h
  have hgen : ∀ (ps : List Primitive) (g : Graph), e.unidentifiedKey ∈ edgeKeys (applyAll g ps) →
      e.unidentifiedKey ∈ edgeKeys g ∧ .stampEdgeIdentity e ∉ ps := by
    intro ps
    induction ps with
    | nil => exact fun g hk => ⟨hk, List.not_mem_nil⟩
    | cons p ps ih =>
      intro g hk
      obtain ⟨hone, hrest⟩ := ih _ hk
      obtain ⟨hold, hno⟩ := unidentified_after rfl hone
      refine ⟨hold, fun hmem => ?_⟩
      rcases List.mem_cons.1 hmem with rfl | hmem
      · exact hno e rfl rfl
      · exact hrest hmem
  obtain ⟨hold, hno⟩ := hgen ps g (mem_edgeKeys.2 hedge)
  exact ⟨mem_scanUnidentifiedEdges.2 ⟨hstamped, mem_edgeKeys.1 hold, hallowed⟩, hno⟩

/-- An edge without an identity that a group of stamps does not name is still without one. -/
theorem scan_kept {edges : List EdgeBase} (hall : ∀ f ∈ edges, f.unidentifiedKey.stamped = f) {e : EdgeBase}
    (h : e ∈ scanUnidentifiedEdges allow scan g) (hno : e ∉ edges) :
    e ∈ scanUnidentifiedEdges allow scan (applyAll g (edges.map .stampEdgeIdentity)) := by
  obtain ⟨hstamped, hedge, hallowed⟩ := mem_scanUnidentifiedEdges.1 h
  refine mem_scanUnidentifiedEdges.2 ⟨hstamped, mem_edgeKeys.1 ?_, hallowed⟩
  have hgen : ∀ (edges : List EdgeBase) (g : Graph), (∀ f ∈ edges, f.unidentifiedKey.stamped = f) → e ∉ edges →
      e.unidentifiedKey ∈ edgeKeys g → e.unidentifiedKey ∈ edgeKeys (applyAll g (edges.map .stampEdgeIdentity)) := by
    intro edges
    induction edges with
    | nil => exact fun g _ _ hk => hk
    | cons f edges ih =>
      intro g hall hno hk
      refine ih _ (fun f' hf => hall f' (by simp [hf])) (fun hmem => hno (by simp [hmem])) ?_
      rw [edgeKeys_stamp]
      refine Multiset.mem_map.2 ⟨e.unidentifiedKey, hk, if_neg fun heq => hno ?_⟩
      have hsame : e = f := by rw [← hstamped, heq, hall f (by simp)]
      rw [hsame]
      simp
  exact hgen edges g hall hno (mem_edgeKeys.2 hedge)

/-- **The stamps that take effect** are those whose edge is still there. -/
theorem selectFrom_stamps_present {edges : List EdgeBase} {o : Overlay} (hnodup : edges.Nodup)
    (hstamped : ∀ e ∈ edges, e.unidentifiedKey.stamped = e) (index : ℕ) :
    selectFrom o index (edges.map .stampEdgeIdentity) =
      .ok ((edges.filter fun e => e.unidentifiedKey ∈ o.edges).map .stampEdgeIdentity) := by
  induction edges generalizing o index with
  | nil => rfl
  | cons e edges ih =>
    obtain ⟨hnew, hnodup⟩ := List.nodup_cons.1 hnodup
    have htail := fun (o : Overlay) => @ih o hnodup (fun f hf => hstamped f (List.mem_cons_of_mem _ hf)) (index + 1)
    -- no later stamp is of the same edge
    have hne : ∀ f ∈ edges, e.unidentifiedKey ≠ f.unidentifiedKey := by
      intro f hf heq
      have hsame : e = f := by rw [← hstamped e (by simp), heq, hstamped f (List.mem_cons_of_mem _ hf)]
      exact hnew (hsame ▸ hf)
    cases hget : o.edges[e.unidentifiedKey]? with
    | none =>
      have habsent : e.unidentifiedKey ∉ o.edges := by
        rw [ExtTreeMap.mem_iff_isSome_getElem?, hget]
        simp
      simp only [List.map_cons, selectFrom, Overlay.apply, hget, bind, Except.bind, pure, Except.pure]
      rw [htail o, List.filter_cons_of_neg (by simpa using habsent)]
      rfl
    | some legacy =>
      have hpresent : e.unidentifiedKey ∈ o.edges := by
        rw [ExtTreeMap.mem_iff_isSome_getElem?, hget]
        rfl
      let popped := o.edges.erase e.unidentifiedKey
      let after := if e.edgeKey ∈ popped then popped else popped.insert e.edgeKey legacy
      have hsame : ∀ f ∈ edges, f.unidentifiedKey ∈ after ↔ f.unidentifiedKey ∈ o.edges := by
        intro f hf
        have hpopped : f.unidentifiedKey ∈ popped ↔ f.unidentifiedKey ∈ o.edges := by
          rw [ExtTreeMap.mem_erase]
          simp [hne f hf]
        by_cases hin : e.edgeKey ∈ popped
        · simp only [after, if_pos hin]
          exact hpopped
        · have hother : e.edgeKey ≠ f.unidentifiedKey := (f.unidentifiedKey_ne_edgeKey e).symm
          simp only [after, if_neg hin]
          rw [ExtTreeMap.mem_insert, hpopped]
          simp [hother]
      have hfilter : (edges.filter fun f => decide (f.unidentifiedKey ∈ after)) =
          edges.filter fun f => decide (f.unidentifiedKey ∈ o.edges) :=
        List.filter_congr fun f hf => decide_eq_decide.2 (hsame f hf)
      have hrest := htail { o with edges := after }
      simp only [hfilter] at hrest
      simp only [List.map_cons, selectFrom, Overlay.apply, hget, bind, Except.bind, pure, Except.pure]
      rw [hrest, List.filter_cons_of_pos (by simpa using hpresent)]
      rfl

theorem select_stamps {edges : List EdgeBase} (hnodup : edges.Nodup)
    (hstamped : ∀ e ∈ edges, e.unidentifiedKey.stamped = e) :
    ∃ effective : List EdgeBase, selectEffectivePrimitives scan g (edges.map .stampEdgeIdentity) =
        .ok (effective.map .stampEdgeIdentity) ∧ ∀ e ∈ edges, e.unidentifiedKey ∈ edgeKeys g → e ∈ effective := by
  refine ⟨_, selectFrom_stamps_present hnodup hstamped 0, fun e he hk => List.mem_filter.2 ⟨he, ?_⟩⟩
  have hnamed : e.unidentifiedKey ∈ stampedEdges (edges.map .stampEdgeIdentity) :=
    List.mem_filterMap.2 ⟨_, List.mem_map_of_mem he, rfl⟩
  have hsees := (readOverlay_sees scan g (edges.map .stampEdgeIdentity)).named _ (List.mem_append_right _ hnamed)
  exact decide_eq_true (hsees.2 hk)

end Scan

/-! ## The clock -/

/-- How many edges still lack an identity. -/
def due (gw : Gateway) (s : GraphState) : ℕ := (scanUnidentifiedEdges gw.allow gw.scan s.graph).length

/-- The gateway may name governing edges: all the names are of the domain schema. -/
def NamesGovernors (gw : Gateway) : Prop :=
  "GOVERNED_BY" ∈ gw.allow.relationshipTypes ∧ "Capability" ∈ gw.allow.nodeLabels ∧ "Policy" ∈ gw.allow.nodeLabels

/-- The log position, and what is left to stamp. -/
def housekeeping (gw : Gateway) : Housekeeping GraphState where
  clock := GraphState.position
  due := due gw
  same s s' := SameButIdentities s.graph s'.graph
  refl s := .refl s.graph
  trans _ _ _ := SameButIdentities.trans

/-- A `StampEdgeIdentity` group: the distinct edges of a scan. -/
def IsStamps (ps : List Primitive) : Prop :=
  ∃ edges : List EdgeBase, ps = edges.map .stampEdgeIdentity ∧ edges.Nodup ∧ ∀ e ∈ edges, e.unidentifiedKey.stamped = e

/-- **What every submitted group meets**, where the gateway takes it: it is one of stamps, or nothing is left to stamp and
it keeps governors single; and an approval leaves the Capabilities it moves to the Policy alone. -/
def Fit (gw : Gateway) (s : GraphState) (submission : Submission) : Prop :=
  submission.expected.all (· = s.position) = true →
    (IsStamps submission.primitives ∨ due gw s = 0 ∧ Fair s.graph submission.primitives) ∧
      ∀ group actor id c, submission = .lifecycle group → group.purpose = .transition .approve actor id →
        Governed s.graph → (∃ p ∈ group.primitives, Gives c p) →
          governors (applyAll s.graph group.primitives) c = {id}

/-- What the others do between two steps of a writer. -/
structure Drift (gw : Gateway) (s s' : GraphState) : Prop where
  governed : Governed s.graph → Governed s'.graph
  later : Later (housekeeping gw) s s'
  unstamped : ∀ e ∈ scanUnidentifiedEdges gw.allow gw.scan s'.graph, e ∈ scanUnidentifiedEdges gw.allow gw.scan s.graph

section Clock

variable {gw : Gateway} {s s' s'' : GraphState}

theorem Drift.refl (gw : Gateway) (s : GraphState) : Drift gw s s := ⟨id, Later.refl _ s, fun _ h => h⟩

theorem Drift.trans (a b c : GraphState) (h : Drift gw a b) (h' : Drift gw b c) : Drift gw a c where
  governed hg := h'.governed (h.governed hg)
  later := h.later.trans h'.later
  unstamped e he := h.unstamped e (h'.unstamped e he)

theorem commit_some {group : Group} (h : gw.commit s group = some s') :
    group.expected.all (· = s.position) = true ∧ ∃ effective,
      selectEffectivePrimitives gw.scan s.graph group.primitives = .ok effective ∧
        s' = ⟨applyAll s.graph group.primitives, s.position + effective.length⟩ := by
  unfold Gateway.commit at h
  split at h
  · rename_i hexpected
    split at h
    · cases h
    · rename_i effective hselect
      exact ⟨hexpected, effective, hselect, (Option.some.inj h).symm⟩
  · cases h

theorem due_le (h : ∀ e ∈ scanUnidentifiedEdges gw.allow gw.scan s'.graph,
    e ∈ scanUnidentifiedEdges gw.allow gw.scan s.graph) : due gw s' ≤ due gw s :=
  (List.subperm_of_subset scan_nodup h).length_le

/-- Nothing is left to stamp, and the group stamps nothing. -/
theorem settled_later {ps effective : List Primitive} (hdue : due gw s = 0)
    (hselect : selectEffectivePrimitives gw.scan s.graph ps = .ok effective) :
    Later (housekeeping gw) s ⟨applyAll s.graph ps, s.position + effective.length⟩ := by
  have hless : due gw ⟨applyAll s.graph ps, s.position + effective.length⟩ ≤ due gw s :=
    due_le fun e he => (scan_after he).1
  refine ⟨Nat.le_add_right _ _, hless, ?_, fun hstill => ?_⟩
  · show s.position + due gw s ≤ s.position + effective.length + due gw _
    omega
  · have hcount : s.position + effective.length + due gw ⟨applyAll s.graph ps, s.position + effective.length⟩ =
        s.position + due gw s := hstill
    have hnil : effective = [] := List.length_eq_zero_iff.1 (by omega)
    rw [hnil] at hselect
    obtain ⟨hnodes, hkeys⟩ := selected_none hselect
    exact ⟨hnodes, by rw [hkeys]⟩

/-- A stamp group moves the position by what it makes less due, at least. -/
theorem stamps_later {edges : List EdgeBase} {effective : List Primitive} (hnodup : edges.Nodup)
    (hstamped : ∀ e ∈ edges, e.unidentifiedKey.stamped = e)
    (hselect : selectEffectivePrimitives gw.scan s.graph (edges.map .stampEdgeIdentity) = .ok effective) :
    Later (housekeeping gw) s ⟨applyAll s.graph (edges.map .stampEdgeIdentity), s.position + effective.length⟩ := by
  refine ⟨Nat.le_add_right _ _, due_le fun e he => (scan_after he).1, ?_, fun _ => sameButIdentities_stamps⟩
  obtain ⟨taken, htaken, hpresent⟩ := @select_stamps gw.scan s.graph edges hnodup hstamped
  have heq : effective = taken.map .stampEdgeIdentity := by
    rw [hselect] at htaken
    exact Except.ok.inj htaken
  have hsub : scanUnidentifiedEdges gw.allow gw.scan s.graph ⊆
      scanUnidentifiedEdges gw.allow gw.scan (applyAll s.graph (edges.map .stampEdgeIdentity)) ++ taken := by
    intro e he
    by_cases hin : e ∈ edges
    · exact List.mem_append_right _ (hpresent e hin (mem_edgeKeys.2 (mem_scanUnidentifiedEdges.1 he).2.1))
    · exact List.mem_append_left _ (scan_kept hstamped he hin)
  have hlength := (List.subperm_of_subset scan_nodup hsub).length_le
  rw [List.length_append] at hlength
  have hafter : due gw s ≤ due gw ⟨applyAll s.graph (edges.map .stampEdgeIdentity), s.position + effective.length⟩ +
      effective.length := by
    rw [heq, List.length_map]
    exact hlength
  show s.position + due gw s ≤ s.position + effective.length + due gw _
  omega

/-- A fit group that the gateway takes. -/
theorem commit_drift {submission : Submission} (hfit : Fit gw s submission)
    (h : gw.commit s submission.group = some s') : Drift gw s s' := by
  obtain ⟨hexpected, effective, hselect, rfl⟩ := commit_some h
  have hprimitives : submission.group.primitives = submission.primitives := by cases submission <;> rfl
  have htaken : submission.expected.all (· = s.position) = true := by
    cases submission <;> exact hexpected
  rw [hprimitives] at hselect ⊢
  refine ⟨fun hg => ?_, ?_, fun e he => (scan_after he).1⟩
  · rcases (hfit htaken).1 with ⟨edges, hedges, -, hstamped⟩ | ⟨-, hfair⟩
    · rw [hedges]
      exact stamps_governed hstamped hg
    · exact hfair.governed hg
  · rcases (hfit htaken).1 with ⟨edges, hedges, hnodup, hstamped⟩ | ⟨hdue, -⟩
    · rw [hedges] at hselect ⊢
      exact stamps_later hnodup hstamped hselect
    · exact settled_later hdue hselect

/-- **Every submit stays within the drift.** -/
theorem carry_drift {submission : Submission} {answer : Answer} (hfit : Fit gw s submission)
    (h : carry gw s submission answer = some s') : Drift gw s s' := by
  cases answer with
  | applied => exact commit_drift hfit h
  | unknown => exact commit_drift hfit h
  | stale =>
    simp only [carry, Gateway.carry] at h
    split at h
    · rw [← Option.some.inj h]
      exact Drift.refl gw s
    · cases h
  | refused =>
    rw [← Option.some.inj h]
    exact Drift.refl gw s

end Clock

end PolicySystem.Governance
