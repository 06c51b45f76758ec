import PolicySystem.Faults.Alone
import PolicySystem.Gateway.Redo
import PolicySystem.PolicyLifecycle.Content

/-!
# Lifecycle calls one after another

A call with no other beside it and a gateway that does not fail: every submit is answered by the state of the graph.

* `Gateway.serve`: that answer, and `serve_carry`: it is one a submit may end in;
* `Supplied`: what a group needs of the graph, and `serve_supplied`: such a group is applied;
* `alone_*`: what the parts of a call do to the graph.
-/

namespace PolicySystem.PolicyLifecycle

open Std (ExtTreeMap)
open Interleaved PropertyGraph GraphWrite

/-! ## A gateway that does not fail -/

/-- The answer of a submit nothing disturbs, with the graph after it. -/
def Gateway.serve (gw : Gateway) (s : GraphState) (group : Group) : Answer × GraphState :=
  match gw.commit s group with
  | some s' => (.applied, s')
  | none => (if group.expected.any (· ≠ s.position) then .stale else .refused, s)

/-- The graph and the log after a call. -/
def callAlone (gw : Gateway) (h : Hashing) (s : GraphState) (call : LifecycleCall) : GraphState :=
  ((call.flow gw h).run gw.serve s).2

/-- The call raises. -/
def Refused (gw : Gateway) (h : Hashing) (s : GraphState) (call : LifecycleCall) : Prop :=
  ((call.flow gw h).run gw.serve s).1 = none

/-- The graph and the log after calls one after another. -/
def callsAlone (gw : Gateway) (h : Hashing) (s : GraphState) (calls : List LifecycleCall) : GraphState :=
  calls.foldl (callAlone gw h) s

/-! ## Groups the gateway takes -/

/-- The nodes a primitive needs. -/
def Needs : Primitive → NodeRef → Prop
  | .upsertEdge e _, n => n = e.source ∨ n = e.target
  | .mergeProperty m _, n => n = m
  | _, _ => False

/-- The node a primitive creates. -/
def Creates : Primitive → NodeRef → Prop
  | .upsertNode m _ _, n => n = m
  | _, _ => False

/-- Every node a primitive needs is there at its turn, and none is deleted. -/
def Supplied (has : NodeRef → Prop) : List Primitive → Prop
  | [] => True
  | p :: ps => (∀ n, Needs p n → has n) ∧ (∀ n, p ≠ .deleteNode n) ∧ Supplied (fun n => has n ∨ Creates p n) ps

theorem Supplied.mono {has has' : NodeRef → Prop} {ps : List Primitive} (h : Supplied has ps)
    (hle : ∀ n, has n → has' n) : Supplied has' ps := by
  induction ps generalizing has has' with
  | nil => trivial
  | cons p ps ih =>
    obtain ⟨hneeds, hkeeps, hrest⟩ := h
    refine ⟨fun n hn => hle n (hneeds n hn), hkeeps, ih hrest ?_⟩
    intro n hn
    exact hn.imp_left (hle n)

theorem Supplied.append {has : NodeRef → Prop} {ps qs : List Primitive} (h : Supplied has ps)
    (hrest : Supplied (fun n => has n ∨ ∃ p ∈ ps, Creates p n) qs) : Supplied has (ps ++ qs) := by
  induction ps generalizing has with
  | nil =>
    refine hrest.mono ?_
    rintro n (hn | ⟨p, hp, -⟩)
    · exact hn
    · cases hp
  | cons p ps ih =>
    obtain ⟨hneeds, hkeeps, htail⟩ := h
    refine ⟨hneeds, hkeeps, ih htail (hrest.mono ?_)⟩
    rintro n (hn | ⟨q, hq, hcreates⟩)
    · exact .inl (.inl hn)
    · rcases List.mem_cons.1 hq with rfl | hq
      · exact .inl (.inr hcreates)
      · exact .inr ⟨q, hq, hcreates⟩

theorem supplied_flatMap {α : Type} {has : NodeRef → Prop} {xs : List α} {f : α → List Primitive}
    (h : ∀ x ∈ xs, Supplied has (f x)) : Supplied has (xs.flatMap f) := by
  induction xs with
  | nil => trivial
  | cons x xs ih =>
    rw [List.flatMap_cons]
    have htail : Supplied has (xs.flatMap f) := ih fun y hy => h y (List.mem_cons_of_mem _ hy)
    exact (h x (by simp)).append (htail.mono fun n hn => .inl hn)

/-- Primitives that need only what is there. -/
theorem supplied_of_needs {has : NodeRef → Prop} {ps : List Primitive} (hneeds : ∀ p ∈ ps, ∀ n, Needs p n → has n)
    (hkeeps : ∀ p ∈ ps, ∀ n, p ≠ .deleteNode n) : Supplied has ps := by
  induction ps generalizing has with
  | nil => trivial
  | cons p ps ih =>
    refine ⟨hneeds p (by simp), hkeeps p (by simp), ih ?_ fun q hq => hkeeps q (List.mem_cons_of_mem _ hq)⟩
    intro q hq n hn
    exact .inl (hneeds q (List.mem_cons_of_mem _ hq) n hn)

theorem supplied_child {has : NodeRef → Prop} {parent child : NodeRef} {props : PropertyMap} {edgeType : String}
    (h : has parent) : Supplied has (childPrimitives parent child props edgeType) := by
  refine ⟨fun n hn => hn.elim, by simp, ?_, by simp, trivial⟩
  rintro n (rfl | rfl)
  · exact .inl h
  · exact .inr rfl

/-- A primitive that finds its nodes leaves an overlay with them. -/
theorem apply_supplied {o : Overlay} {p : Primitive} (index : ℕ) (hneeds : ∀ n, Needs p n → n ∈ o.nodes)
    (hkeeps : ∀ n, p ≠ .deleteNode n) :
    ∃ changed o', o.apply index p = .ok (changed, o') ∧ ∀ n, n ∈ o.nodes ∨ Creates p n → n ∈ o'.nodes := by
  have hinsert : ∀ (m n : NodeRef) (v : NodeContent), n ∈ o.nodes ∨ n = m → n ∈ o.nodes.insert m v := by
    rintro m n v (hn | rfl)
    · exact ExtTreeMap.mem_insert.2 (.inr hn)
    · exact ExtTreeMap.mem_insert_self
  cases p with
  | upsertNode m props e =>
    simp only [Overlay.apply]
    split
    · rename_i current hcurrent
      split
      · refine ⟨_, _, rfl, ?_⟩
        rintro n (hn | rfl)
        · exact hn
        · exact ExtTreeMap.mem_iff_isSome_getElem?.2 (by rw [hcurrent]; rfl)
      · exact ⟨_, _, rfl, fun n hn => hinsert m n _ hn⟩
    · exact ⟨_, _, rfl, fun n hn => hinsert m n _ hn⟩
  | mergeProperty m props =>
    obtain ⟨current, hcurrent⟩ : ∃ current, o.nodes[m]? = some current :=
      Option.isSome_iff_exists.1 (ExtTreeMap.mem_iff_isSome_getElem?.1 (hneeds m rfl))
    simp only [Overlay.apply, hcurrent]
    split
    · exact ⟨_, _, rfl, fun n hn => hn.resolve_right id⟩
    · exact ⟨_, _, rfl, fun n hn => hinsert m n _ (.inl (hn.resolve_right id))⟩
  | removeProperty m keys =>
    simp only [Overlay.apply]
    split
    · exact ⟨_, _, rfl, fun n hn => hn.resolve_right id⟩
    · split
      · exact ⟨_, _, rfl, fun n hn => hinsert m n _ (.inl (hn.resolve_right id))⟩
      · exact ⟨_, _, rfl, fun n hn => hn.resolve_right id⟩
  | deleteNode m => exact absurd rfl (hkeeps m)
  | upsertEdge e props =>
    have hends : e.source ∈ o.nodes ∧ e.target ∈ o.nodes := ⟨hneeds _ (.inl rfl), hneeds _ (.inr rfl)⟩
    simp only [Overlay.apply, hends, and_self, if_true]
    split
    · split
      · exact ⟨_, _, rfl, fun n hn => hn.resolve_right id⟩
      · exact ⟨_, _, rfl, fun n hn => hn.resolve_right id⟩
    · exact ⟨_, _, rfl, fun n hn => hn.resolve_right id⟩
  | deleteEdge e =>
    simp only [Overlay.apply]
    split
    · exact ⟨_, _, rfl, fun n hn => hn.resolve_right id⟩
    · exact ⟨_, _, rfl, fun n hn => hn.resolve_right id⟩
  | stampEdgeIdentity e =>
    simp only [Overlay.apply]
    split
    · exact ⟨_, _, rfl, fun n hn => hn.resolve_right id⟩
    · exact ⟨_, _, rfl, fun n hn => hn.resolve_right id⟩

theorem selectFrom_supplied {has : NodeRef → Prop} {ps : List Primitive} {o : Overlay} (h : Supplied has ps)
    (ho : ∀ p ∈ ps, ∀ n, Needs p n → has n → n ∈ o.nodes) (index : ℕ) :
    ∃ effective, selectFrom o index ps = .ok effective := by
  induction ps generalizing has o index with
  | nil => exact ⟨_, rfl⟩
  | cons p ps ih =>
    obtain ⟨hneeds, hkeeps, hrest⟩ := h
    obtain ⟨changed, o', happly, hnodes⟩ :=
      apply_supplied (o := o) index (fun n hn => ho p (by simp) n hn (hneeds n hn)) hkeeps
    obtain ⟨rest, hselect⟩ := @ih _ o' hrest (by
      intro q hq n hn hhas
      refine hnodes n (hhas.imp_left fun hold => ?_)
      exact ho q (List.mem_cons_of_mem _ hq) n hn hold) (index + 1)
    refine ⟨if changed then p :: rest else rest, ?_⟩
    simp only [selectFrom, happly, hselect, bind, Except.bind, pure, Except.pure]

theorem needs_named {p : Primitive} {ps : List Primitive} (hp : p ∈ ps) {n : NodeRef} (hn : Needs p n) :
    n ∈ actedOnNodes ps ∨ n ∈ edgeEndpoints ps := by
  cases p with
  | upsertEdge e props =>
    refine .inr (List.mem_flatMap.2 ⟨_, hp, ?_⟩)
    rcases hn with rfl | rfl <;> simp
  | mergeProperty m props =>
    obtain rfl : n = m := hn
    exact .inl (mem_actedOn_mergeProperty hp)
  | _ => exact hn.elim

/-- **A supplied group is taken**: nothing of it is missing at its turn. -/
theorem select_supplied {scan : ScanOrder} {g : Graph} {ps : List Primitive} (h : Supplied (· ∈ g.nodes) ps) :
    ∃ effective, selectEffectivePrimitives scan g ps = .ok effective := by
  refine selectFrom_supplied h (fun p hp n hn hhas => ?_) 0
  rcases needs_named hp hn with hacted | hend
  · rw [ExtTreeMap.mem_iff_isSome_getElem?, (readOverlay_nodes scan g ps).1 n hacted,
      ← ExtTreeMap.mem_iff_isSome_getElem?]
    exact hhas
  · exact ((readOverlay_nodes scan g ps).2 n hend).2 hhas

/-- A supplied group at its position is applied. -/
theorem serve_supplied {gw : Gateway} {s : GraphState} {group : Group} (h : Supplied (· ∈ s.graph.nodes) group.primitives)
    (hexpected : group.expected.all (· = s.position) = true) :
    ∃ n, gw.serve s group = (.applied, ⟨applyAll s.graph group.primitives, n⟩) := by
  obtain ⟨effective, hselect⟩ := @select_supplied gw.scan s.graph group.primitives h
  refine ⟨s.position + effective.length, ?_⟩
  simp only [Gateway.serve, Gateway.commit, hexpected, if_true, hselect]

/-! ## Stamps -/

theorem mem_readEdges {scan : ScanOrder} {g : Graph} {ks : List EdgeKey} {k : EdgeKey} (hk : k ∈ ks)
    (hedge : g.edgesAt k ≠ 0) : k ∈ readEdges scan g ks := by
  obtain ⟨v, hv⟩ := Multiset.exists_mem_of_ne_zero hedge
  have hmem : (k, v) ∈ scan.order g.edges := by
    rw [← Multiset.mem_coe, scan.perm]
    exact mem_edgesAt.1 hv
  have hgen : ∀ (xs : List (EdgeKey × PropertyMap)) (found : ExtTreeMap EdgeKey PropertyMap),
      k ∈ found ∨ (k, v) ∈ xs →
      k ∈ xs.foldl (fun found e => if e.1 ∈ ks then found.insert e.1 e.2 else found) found := by
    intro xs
    induction xs with
    | nil =>
      rintro found (h | h)
      · exact h
      · cases h
    | cons x xs ih =>
      intro found h
      refine ih _ ?_
      simp only
      rcases h with h | h
      · left
        split
        · exact ExtTreeMap.mem_insert.2 (.inr h)
        · exact h
      · rcases List.mem_cons.1 h with rfl | h
        · left
          rw [if_pos hk]
          exact ExtTreeMap.mem_insert_self
        · exact .inr h
  exact hgen _ ∅ (.inr hmem)

theorem nodup_eraseDups {α : Type} [DecidableEq α] (xs : List α) : xs.eraseDups.Nodup := by
  induction hlen : xs.length using Nat.strong_induction_on generalizing xs with
  | _ n ih =>
    cases xs with
    | nil => simp
    | cons x xs =>
      rw [List.eraseDups_cons, List.nodup_cons]
      have hshort : (xs.filter fun b => !b == x).length ≤ xs.length := List.length_filter_le _ _
      rw [List.length_cons] at hlen
      refine ⟨?_, ih _ (by omega) _ rfl⟩
      simp [List.mem_eraseDups]

/-- Stamps of distinct edges that are there all take effect. -/
theorem selectFrom_stamps {edges : List EdgeBase} {o : Overlay} (hnodup : edges.Nodup)
    (hstamped : ∀ e ∈ edges, e.unidentifiedKey.stamped = e) (ho : ∀ e ∈ edges, e.unidentifiedKey ∈ o.edges) (index : ℕ) :
    selectFrom o index (edges.map .stampEdgeIdentity) = .ok (edges.map .stampEdgeIdentity) := by
  induction edges generalizing o index with
  | nil => rfl
  | cons e edges ih =>
    obtain ⟨hnew, hnodup⟩ := List.nodup_cons.1 hnodup
    obtain ⟨legacy, hlegacy⟩ : ∃ legacy, o.edges[e.unidentifiedKey]? = some legacy :=
      Option.isSome_iff_exists.1 (ExtTreeMap.mem_iff_isSome_getElem?.1 (ho e (by simp)))
    -- the other edges stay without an identity
    have hrest : ∀ e' ∈ edges, e'.unidentifiedKey ∈ (let popped := o.edges.erase e.unidentifiedKey
        if e.edgeKey ∈ popped then popped else popped.insert e.edgeKey legacy) := by
      intro e' he'
      have hne : e.unidentifiedKey ≠ e'.unidentifiedKey := by
        intro heq
        have hsame : e = e' := by
          rw [← hstamped e (by simp), heq, hstamped e' (List.mem_cons_of_mem _ he')]
        exact hnew (hsame ▸ he')
      have hpopped : e'.unidentifiedKey ∈ o.edges.erase e.unidentifiedKey :=
        ExtTreeMap.mem_erase.2 ⟨by simpa using hne, ho e' (List.mem_cons_of_mem _ he')⟩
      simp only
      split
      · exact hpopped
      · exact ExtTreeMap.mem_insert.2 (.inr hpopped)
    have htail := ih hnodup (fun e' he' => hstamped e' (List.mem_cons_of_mem _ he'))
      (o := { o with edges := let popped := o.edges.erase e.unidentifiedKey
                              if e.edgeKey ∈ popped then popped else popped.insert e.edgeKey legacy })
      hrest (index + 1)
    simp only [List.map_cons, selectFrom, Overlay.apply, hlegacy, bind, Except.bind, pure, Except.pure] at htail ⊢
    rw [htail]
    simp

theorem serve_stamps {gw : Gateway} {s : GraphState} :
    gw.serve s ⟨.stamp, (scanUnidentifiedEdges gw.allow gw.scan s.graph).map .stampEdgeIdentity, none⟩ =
      (.applied, ⟨applyAll s.graph ((scanUnidentifiedEdges gw.allow gw.scan s.graph).map .stampEdgeIdentity),
        s.position + (scanUnidentifiedEdges gw.allow gw.scan s.graph).length⟩) := by
  have hselect : selectEffectivePrimitives gw.scan s.graph
      ((scanUnidentifiedEdges gw.allow gw.scan s.graph).map .stampEdgeIdentity) =
      .ok ((scanUnidentifiedEdges gw.allow gw.scan s.graph).map .stampEdgeIdentity) := by
    refine selectFrom_stamps (nodup_eraseDups _) (fun e he => (mem_scanUnidentifiedEdges.1 he).1) ?_ 0
    intro e he
    have hstamped : e.unidentifiedKey ∈
        stampedEdges ((scanUnidentifiedEdges gw.allow gw.scan s.graph).map .stampEdgeIdentity) :=
      List.mem_filterMap.2 ⟨_, List.mem_map_of_mem he, rfl⟩
    have hread : e.unidentifiedKey ∈ readEdges gw.scan s.graph
        (stampedEdges ((scanUnidentifiedEdges gw.allow gw.scan s.graph).map .stampEdgeIdentity)) :=
      mem_readEdges hstamped (mem_scanUnidentifiedEdges.1 he).2.1
    simp only [readOverlay]
    exact ExtTreeMap.mem_union_of_right hread
  simp only [Gateway.serve, Gateway.commit, Option.all_none, if_true, hselect, List.length_map]

/-! ## Parts of a call -/

/-- The graph but for the identities of its edges. -/
structure Restamped (g g' : Graph) : Prop where
  nodes : ∀ n : NodeRef, g'.nodes[n]? = g.nodes[n]?
  shows : ∀ r, Shows g' r ↔ Shows g r

theorem Restamped.refl (g : Graph) : Restamped g g := ⟨fun _ => rfl, fun _ => .rfl⟩

theorem Restamped.mem {g g' : Graph} (h : Restamped g g') {n : NodeRef} : n ∈ g'.nodes ↔ n ∈ g.nodes := by
  rw [ExtTreeMap.mem_iff_isSome_getElem?, ExtTreeMap.mem_iff_isSome_getElem?, h.nodes]

theorem Restamped.columns {g g' : Graph} (h : Restamped g g') (n : NodeRef) : columns g' n = columns g n := by
  unfold PolicyLifecycle.columns
  rw [h.nodes]

theorem Restamped.under {g g' : Graph} (h : Restamped g g') {id : String} {n : NodeRef} :
    Under g' id n ↔ Under g id n := by
  unfold Under
  simp only [h.shows]

theorem restamped_stamps (g : Graph) (edges : List EdgeBase) :
    Restamped g (applyAll g (edges.map .stampEdgeIdentity)) := by
  induction edges generalizing g with
  | nil => exact .refl g
  | cons e edges ih =>
    have hrest := ih (applyOne g (.stampEdgeIdentity e))
    refine ⟨fun n => (hrest.nodes n).trans ?_, fun r => (hrest.shows r).trans ⟨fun hshow => ?_, stamp_shows⟩⟩
    · rw [applyOne_stamp, stampEdge_nodes]
    · rcases applyOne_shows_old hshow with hold | ⟨e', props, hmem, -⟩
      · exact hold
      · cases List.mem_singleton.1 hmem

section Parts

variable {gw : Gateway} {h : Hashing} {α : Type} {s : GraphState} {R : GraphState → Prop}

/-- What a call does to the graph with no other beside it: it returns with `P`, or is refused with `R`. -/
abbrev Does (gw : Gateway) (R : GraphState → Prop) (p : Call α) (P : GraphState → α → Prop) (s : GraphState) : Prop :=
  p.alone gw.serve R P s

theorem does_query {f : Graph → α} {P : GraphState → α → Prop} (hP : P s (f s.graph)) : Does gw R (query f) P s := hP

theorem does_gate {allowed : Bool} {P : GraphState → Unit → Prop} (hno : allowed = false → R s)
    (hP : allowed = true → P s ()) : Does gw R (gate allowed) P s := by
  cases allowed with
  | true => exact hP rfl
  | false => exact hno rfl

theorem does_need {found : Option α} {P : GraphState → α → Prop} (hno : found = none → R s)
    (hP : ∀ a, found = some a → P s a) : Does gw R (need found) P s := by
  cases found with
  | none => exact hno rfl
  | some a => exact hP a rfl

/-- The stamps move the position by their number. -/
theorem does_ensureStamped {P : GraphState → ℕ → Prop}
    (hP : ∀ g' n, Restamped s.graph g' → P ⟨g', s.position + n⟩ n) : Does gw R (ensureStamped gw) P s := by
  refine Flow.alone_bind (does_query ?_)
  split
  · exact hP s.graph 0 (.refl _)
  · refine Flow.alone_bind (Flow.alone_ask ?_)
    rw [serve_stamps]
    exact hP _ _ (restamped_stamps _ _)

theorem does_submit {group : Group} {P : GraphState → Bool → Prop}
    (hsupplied : Supplied (· ∈ s.graph.nodes) group.primitives)
    (hexpected : group.expected.all (· = s.position) = true)
    (hP : ∀ n, P ⟨applyAll s.graph group.primitives, n⟩ true) : Does gw R (submit group) P s := by
  obtain ⟨n, hserve⟩ := @serve_supplied gw s group hsupplied hexpected
  refine Flow.alone_bind (Flow.alone_ask ?_)
  rw [hserve]
  exact hP n

theorem Restamped.supplied {g g' : Graph} (hg : Restamped g g') {ps : List Primitive} (hps : Supplied (· ∈ g.nodes) ps) :
    Supplied (· ∈ g'.nodes) ps := hps.mono fun _ hn => hg.mem.2 hn

/-- A supplied group is applied, after the stamps. -/
theorem does_submitGroup {purpose : Purpose} {ps : List Primitive} {P : GraphState → Unit → Prop}
    (hsupplied : Supplied (· ∈ s.graph.nodes) ps)
    (hP : ∀ g' n, Restamped s.graph g' → P ⟨applyAll g' ps, n⟩ ()) : Does gw R (submitGroup gw purpose ps) P s := by
  unfold submitGroup
  split
  · rename_i hnil
    rw [hnil] at hP
    exact hP s.graph s.position (.refl _)
  · refine Flow.alone_bind (does_ensureStamped fun g' n hg => ?_)
    exact Flow.alone_bind (does_submit (hg.supplied hsupplied) rfl fun m => hP g' m hg)

/-- A backfill that finds nothing to write leaves the graph. -/
theorem does_backfill {policyId : String} {P : GraphState → Unit → Prop}
    (hnone : backfillPrimitives gw.scan s.graph policyId = []) (hP : P s ()) :
    Does gw R (backfillGovernanceStatus gw policyId) P s := by
  refine Flow.alone_bind (does_query ?_)
  rw [hnone]
  exact hP

end Parts

end PolicySystem.PolicyLifecycle
