import PolicySystem.Gateway.Replace

/-!
# A replacing leg leaves exactly the leg

* `OverlayTraces`: what the overlay still shows of a graph with parallel edges: whether a key is taken, and a
  lone edge;
* `selectFrom_replacement`: the filter keeps all that matters of the stamps and deletes;
* `replace_exact_iff`: **when a replacing leg leaves exactly the leg and nothing is logged for a graph that
  already holds it**.
-/

open Std (ExtTreeMap)

namespace PolicySystem

open PropertyGraph GraphWrite

/-! ## The overlay over parallel edges -/

/-- The overlay shows the nodes of the graph, whether a named key holds an edge, and that edge if it is alone. -/
structure OverlayTraces (group : List Primitive) (o : Overlay) (g : Graph) : Prop where
  acted : ∀ n ∈ actedOnNodes group, o.nodes[n]? = g.nodes[n]?
  ends : ∀ n ∈ edgeEndpoints group, n ∈ o.nodes ↔ n ∈ g.nodes
  taken : ∀ k ∈ namedEdges group ++ stampedEdges group, o.edges[k]? = none ↔ g.edgesAt k = 0
  lone : ∀ k ∈ namedEdges group ++ stampedEdges group, ∀ p, g.edgesAt k = {p} → o.edges[k]? = some p

theorem readEdges_eq (scan : ScanOrder) (g : Graph) (ks : List EdgeKey) (k : EdgeKey) :
    (readEdges scan g ks)[k]? = if k ∈ ks then (lastScanned scan g)[k]? else none := by
  unfold readEdges lastScanned
  induction scan.order g.edges using List.reverseRecOn with
  | nil => simp
  | append_singleton xs e ih =>
    simp only [List.foldl_append, List.foldl_cons, List.foldl_nil]
    by_cases he : e.1 ∈ ks
    · rw [if_pos he, getElem?_insert_self', getElem?_insert_self', ih]
      by_cases hk : e.1 = k
      · subst hk; rw [if_pos rfl, if_pos he, if_pos rfl]
      · rw [if_neg hk, if_neg hk]
    · rw [if_neg he, getElem?_insert_self', ih]
      by_cases hk : e.1 = k
      · subst hk; rw [if_neg he, if_neg he]
      · rw [if_neg hk]

theorem readOverlay_edges (scan : ScanOrder) (g : Graph) (group : List Primitive) {k : EdgeKey}
    (hk : k ∈ namedEdges group ++ stampedEdges group) :
    (readOverlay scan g group).edges[k]? = (lastScanned scan g)[k]? := by
  simp only [readOverlay, ExtTreeMap.getElem?_union, readEdges_eq]
  by_cases h : k ∈ stampedEdges group
  · rw [if_pos h]
    split
    · cases (lastScanned scan g)[k]? <;> rfl
    · rw [Option.or_none]
  · rw [if_neg h, Option.none_or, if_pos ((List.mem_append.1 hk).resolve_right h)]

theorem readOverlay_traces (scan : ScanOrder) (g : Graph) (group : List Primitive) :
    OverlayTraces group (readOverlay scan g group) g where
  acted := (readOverlay_nodes scan g group).1
  ends := (readOverlay_nodes scan g group).2
  taken k hk := by rw [readOverlay_edges scan g group hk, lastScanned_eq_none]
  lone k hk p hp := by
    rw [readOverlay_edges scan g group hk]
    obtain ⟨q, hq⟩ := (edgesAt_ne_zero_iff scan).1 (show g.edgesAt k ≠ 0 by rw [hp]; simp)
    have := mem_of_lastScanned hq
    rw [hp, Multiset.mem_singleton] at this
    rw [hq, this]

/-- A primitive the replacement itself adds. -/
def IsAdded : Primitive → Prop
  | .stampEdgeIdentity _ | .deleteEdge _ | .deleteNode _ => True
  | _ => False

section Step

variable {group : List Primitive} {o : Overlay} {g : Graph}

/-- What the filter knows of an added primitive: it keeps tracing the graph, and drops only a no-op. -/
def StepTraces (group : List Primitive) (o : Overlay) (g : Graph) (index : ℕ) (p : Primitive) : Prop :=
  ∃ changed o', o.apply index p = .ok (changed, o') ∧ OverlayTraces group o' (applyOne g p) ∧
    (changed = false → applyOne g p = g)

theorem OverlayTraces.setEdges (h : OverlayTraces group o g) {g' : Graph} {edges : ExtTreeMap EdgeKey PropertyMap}
    (hn : g'.nodes = g.nodes)
    (he : ∀ k ∈ namedEdges group ++ stampedEdges group, (edges[k]? = none ↔ g'.edgesAt k = 0) ∧
      ∀ p, g'.edgesAt k = {p} → edges[k]? = some p) :
    OverlayTraces group { o with edges := edges } g' where
  acted n hm := by rw [hn]; exact h.acted n hm
  ends n hm := by rw [hn]; exact h.ends n hm
  taken k hk := (he k hk).1
  lone k hk := (he k hk).2

theorem deleteEdge_traces (h : OverlayTraces group o g) (index : ℕ) {e : EdgeBase}
    (hin : Primitive.deleteEdge e ∈ group) : StepTraces group o g index (.deleteEdge e) := by
  have htaken := h.taken e.edgeKey (mem_named_deleteEdge hin)
  have hat : ∀ k, (applyOne g (.deleteEdge e)).edgesAt k = if e.edgeKey = k then 0 else g.edgesAt k := by
    intro k; rw [applyOne_eq_write rfl, write_edgesAt, edgeStep]
  simp only [StepTraces, Overlay.apply, ExtTreeMap.mem_iff_isSome_getElem?]
  cases hv : o.edges[e.edgeKey]? with
  | none =>
    have hsame : applyOne g (.deleteEdge e) = g := by
      refine ext_at (fun m => by rw [applyOne_eq_write rfl]; rfl) fun k => ?_
      rw [hat]
      split
      · rename_i hk; subst hk; exact (htaken.1 hv).symm
      · rfl
    exact ⟨false, o, rfl, hsame.symm ▸ h, fun _ => hsame⟩
  | some v =>
    refine ⟨true, _, rfl, h.setEdges (by rw [applyOne_eq_write rfl]; rfl) fun k hk => ?_, fun h => absurd h (by simp)⟩
    rw [hat]
    simp only [ExtTreeMap.getElem?_erase, Std.LawfulEqCmp.compare_eq_iff_eq]
    split
    · simp
    · exact ⟨h.taken k hk, h.lone k hk⟩

theorem stamp_traces (h : OverlayTraces group o g) (index : ℕ) {e : EdgeBase}
    (hin : Primitive.stampEdgeIdentity e ∈ group) : StepTraces group o g index (.stampEdgeIdentity e) := by
  have htaken := h.taken e.unidentifiedKey (mem_named_stamp hin)
  have hlone := h.lone e.unidentifiedKey (mem_named_stamp hin)
  have hne := e.unidentifiedKey_ne_edgeKey e
  simp only [StepTraces, Overlay.apply]
  cases hv : o.edges[e.unidentifiedKey]? with
  | none =>
    have hsame : applyOne g (.stampEdgeIdentity e) = g := stampEdge_noop (htaken.1 hv)
    exact ⟨false, o, rfl, hsame.symm ▸ h, fun _ => hsame⟩
  | some v =>
    have hslot : g.edgesAt e.unidentifiedKey ≠ 0 := fun h0 => by rw [htaken.2 h0] at hv; cases hv
    have hpop : ∀ j, (o.edges.erase e.unidentifiedKey)[j]? = if e.unidentifiedKey = j then none else o.edges[j]? := by
      intro j; simp only [ExtTreeMap.getElem?_erase, Std.LawfulEqCmp.compare_eq_iff_eq]
    refine ⟨true, _, rfl, h.setEdges rfl fun k hk => ?_, fun h => absurd h (by simp)⟩
    rw [applyOne_stamp, stampEdge_edgesAt]
    have hk1 := h.taken k hk
    have hk2 := h.lone k hk
    by_cases h1 : e.unidentifiedKey = k
    · subst h1
      rw [if_pos rfl]
      split
      · rw [hpop, if_pos rfl]; simp
      · rw [getElem?_insert_self', if_neg hne.symm, hpop, if_pos rfl]; simp
    · rw [if_neg h1]
      by_cases h2 : e.edgeKey = k
      · subst h2
        rw [if_pos rfl]
        split
        · -- the identified edge is there already: it and the stamped ones are now at least two
          rename_i hmem
          rw [ExtTreeMap.mem_iff_isSome_getElem?, hpop, if_neg hne] at hmem
          have hkey : g.edgesAt e.edgeKey ≠ 0 := fun h0 => by rw [hk1.2 h0] at hmem; cases hmem
          rw [hpop, if_neg hne]
          refine ⟨⟨fun h0 => absurd (hk1.1 h0) hkey, fun h0 => absurd (add_eq_zero.1 h0).1 hkey⟩, fun p hp => ?_⟩
          have := congrArg Multiset.card hp
          rw [Multiset.card_add, Multiset.card_singleton] at this
          have c1 := Multiset.card_pos.2 hkey
          have c2 := Multiset.card_pos.2 hslot
          omega
        · rename_i hmem
          rw [ExtTreeMap.mem_iff_isSome_getElem?, hpop, if_neg hne, Option.not_isSome_iff_eq_none] at hmem
          rw [hk1.1 hmem, zero_add, getElem?_insert_self', if_pos rfl]
          refine ⟨⟨fun h0 => (by cases h0), fun h0 => absurd h0 hslot⟩, fun p hp => ?_⟩
          rw [hlone p hp] at hv
          exact hv.symm
      · rw [if_neg h2]
        split
        · rw [hpop, if_neg h1]; exact ⟨hk1, hk2⟩
        · rw [getElem?_insert_self', if_neg h2, hpop, if_neg h1]; exact ⟨hk1, hk2⟩

theorem getElem?_deleteNode_edges (o : Overlay) (n : NodeRef) (k : EdgeKey) :
    (o.deleteNode n).edges[k]? = if k.source = n ∨ k.target = n then none else o.edges[k]? := by
  simp only [Overlay.deleteNode, ExtTreeMap.getElem?_filter']
  by_cases hs : k.source = n
  · simp [hs]
  · by_cases ht : k.target = n
    · simp [ht]
    · cases o.edges[k]? <;> simp [hs, ht, Option.filter]

theorem deleteNode_traces (h : OverlayTraces group o g) (index : ℕ) {n : NodeRef}
    (hin : Primitive.deleteNode n ∈ group) : StepTraces group o g index (.deleteNode n) := by
  have hnode := h.acted n (mem_actedOn_deleteNode hin)
  have hmem : n ∈ o.nodes ↔ n ∈ g.nodes := by
    rw [ExtTreeMap.mem_iff_isSome_getElem?, ExtTreeMap.mem_iff_isSome_getElem?, hnode]
  have hnodes : ∀ m, (applyOne g (.deleteNode n)).nodes[m]? = if n = m then none else g.nodes[m]? := by
    intro m; rw [applyOne_eq_write rfl, write_nodes, nodeStep]
  have hedges : ∀ k, (applyOne g (.deleteNode n)).edgesAt k =
      if k.source = n ∨ k.target = n then 0 else g.edgesAt k := by
    intro k; rw [applyOne_eq_write rfl, write_edgesAt, edgeStep]; rfl
  simp only [StepTraces, Overlay.apply, hmem]
  by_cases hn : n ∈ g.nodes
  · rw [if_pos hn]
    refine ⟨true, _, rfl, ⟨fun m hm => ?_, fun m hm => ?_, fun k hk => ?_, fun k hk => ?_⟩, fun h => absurd h (by simp)⟩
    · simp only [Overlay.deleteNode, hnodes, ExtTreeMap.getElem?_erase, Std.LawfulEqCmp.compare_eq_iff_eq, h.acted m hm]
    · rw [ExtTreeMap.mem_iff_isSome_getElem?, ExtTreeMap.mem_iff_isSome_getElem?, hnodes]
      simp only [Overlay.deleteNode, ExtTreeMap.getElem?_erase, Std.LawfulEqCmp.compare_eq_iff_eq]
      split
      · rfl
      · rw [← ExtTreeMap.mem_iff_isSome_getElem?, ← ExtTreeMap.mem_iff_isSome_getElem?]; exact h.ends m hm
    · have hfilter := getElem?_deleteNode_edges o n k
      rw [hedges, hfilter]
      split
      · simp
      · exact h.taken k hk
    · have hfilter := getElem?_deleteNode_edges o n k
      rw [hedges, hfilter]
      split
      · simp
      · exact h.lone k hk
  · have hsame : applyOne g (.deleteNode n) = g := by
      refine ext_at (fun m => ?_) fun k => ?_
      · rw [hnodes]
        split
        · rename_i hm; subst hm; exact (getElem?_eq_none_of_notMem hn).symm
        · rfl
      · rw [hedges]
        split
        · rename_i hk
          rcases hk with rfl | rfl
          · exact (edgesAt_eq_zero_of_source hn).symm
          · exact (edgesAt_eq_zero_of_target hn).symm
        · rfl
    rw [if_neg hn]
    exact ⟨false, o, rfl, hsame.symm ▸ h, fun _ => hsame⟩

theorem added_traces (h : OverlayTraces group o g) (index : ℕ) {p : Primitive} (hin : p ∈ group) (hp : IsAdded p) :
    StepTraces group o g index p := by
  cases p with
  | stampEdgeIdentity e => exact stamp_traces h index hin
  | deleteEdge e => exact deleteEdge_traces h index hin
  | deleteNode n => exact deleteNode_traces h index hin
  | _ => exact hp.elim

end Step

/-! ## The walk over a replacement -/

theorem selectFrom_cons {o : Overlay} {index : ℕ} {p : Primitive} {ps selected : List Primitive}
    (h : selectFrom o index (p :: ps) = .ok selected) :
    ∃ changed o' rest, o.apply index p = .ok (changed, o') ∧ selectFrom o' (index + 1) ps = .ok rest ∧
      selected = if changed then p :: rest else rest := by
  rw [selectFrom] at h
  cases ho : o.apply index p with
  | error e => rw [ho] at h; cases h
  | ok r =>
    obtain ⟨changed, o'⟩ := r
    rw [ho] at h
    cases hrest : selectFrom o' (index + 1) ps with
    | error e =>
      have : (Except.ok (changed, o')).bind (fun r => do
          let rest ← selectFrom r.2 (index + 1) ps
          return if r.1 then p :: rest else rest) = .ok selected := h
      simp only [Except.bind, hrest] at this
      cases this
    | ok rest =>
      have : (Except.ok (changed, o')).bind (fun r => do
          let rest ← selectFrom r.2 (index + 1) ps
          return if r.1 then p :: rest else rest) = .ok selected := h
      simp only [Except.bind, hrest] at this
      cases this
      exact ⟨changed, o', rest, rfl, hrest, rfl⟩

theorem selectFrom_sublist {o : Overlay} {index : ℕ} {ps selected : List Primitive}
    (h : selectFrom o index ps = .ok selected) : selected.Sublist ps := by
  induction ps generalizing o index selected with
  | nil => cases h; exact List.Sublist.refl _
  | cons p ps ih =>
    obtain ⟨changed, o', rest, -, hrest, rfl⟩ := selectFrom_cons h
    cases changed with
    | true => exact (ih hrest).cons_cons p
    | false => exact (ih hrest).cons p

/-- **The filter keeps all that matters of the added primitives**, whatever edges stand in parallel. -/
theorem selectFrom_replacement {group : List Primitive} {o : Overlay} {g : Graph} {index : ℕ}
    {added leg selected : List Primitive} (h : OverlayTraces group o g) (hin : ∀ p ∈ added, p ∈ group)
    (hadded : ∀ p ∈ added, IsAdded p) (hsel : selectFrom o index (added ++ leg) = .ok selected) :
    ∃ first rest o' index', selected = first ++ rest ∧ applyAll g first = applyAll g added ∧
      OverlayTraces group o' (applyAll g added) ∧ selectFrom o' index' leg = .ok rest := by
  induction added generalizing o g index selected with
  | nil => exact ⟨[], selected, o, index, rfl, rfl, h, hsel⟩
  | cons p added ih =>
    obtain ⟨changed, o₁, tail, ho, htail, rfl⟩ := selectFrom_cons hsel
    obtain ⟨changed', o₂, ho', htr, hdrop⟩ := added_traces h index (hin p (by simp)) (hadded p (by simp))
    rw [ho] at ho'
    cases ho'
    obtain ⟨first, rest, o', index', rfl, hfirst, htr', hrest⟩ := ih htr
      (fun q hq => hin q (List.mem_cons_of_mem _ hq)) (fun q hq => hadded q (List.mem_cons_of_mem _ hq)) htail
    cases changed with
    | true => exact ⟨p :: first, rest, o', index', rfl, hfirst, htr', hrest⟩
    | false =>
      have hsame := hdrop rfl
      rw [hsame] at hfirst
      exact ⟨first, rest, o', index', rfl, by rw [hfirst, applyAll_cons, hsame], htr', hrest⟩

/-! ## Exactly the leg -/

/-- No upserted edge stays beside a parallel one: of the live edges the replacement keeps as that edge there is
one at most, or one of them was scanned with a name the leg does not give, which deletes them all first. -/
def NoParallelLeft (scan : ScanOrder) (g : Graph) (leg : List Primitive) : Prop :=
  ∀ (k : EdgeKey) (q : PropertyMap), (legEdges leg)[k]? = some q → Kept g leg k.source → Kept g leg k.target →
    (liveEdges g k).card ≤ 1 ∨ ∃ (key : EdgeKey) (p : PropertyMap),
      (lastScanned scan g)[key]? = some p ∧ key.stamped.edgeKey = k ∧ ¬ propertyNames p ⊆ propertyNames q

/-- No upsert of the leg is overwritten by a later one: each agrees with what the leg gives in the end. -/
def NoOverwrite (leg : List Primitive) : Prop :=
  (∀ n props e, .upsertNode n props e ∈ leg → ∀ w, (legNodes leg)[n]? = some w → w.upsert props e = w) ∧
    ∀ e props, .upsertEdge e props ∈ leg → ∀ q, (legEdges leg)[e.edgeKey]? = some q → q ∪ props = q

section Exact

variable {scan scan' : ScanOrder} {allow : AllowList} {g : Graph} {leg : List Primitive}

theorem legEdges_identified {k : EdgeKey} {q : PropertyMap} (h : (legEdges leg)[k]? = some q) : k.identity ≠ none := by
  induction leg using List.reverseRecOn generalizing q with
  | nil => simp [legEdges] at h
  | append_singleton leg p ih =>
    rw [legEdges_concat] at h
    cases p with
    | upsertEdge e props =>
      dsimp only at h
      split at h
      · rename_i hk; subst hk; simp [EdgeBase.edgeKey]
      · exact ih h
    | _ => exact ih h

/-- What the leg's upserts find under an upserted key, by the condition: one edge at most. -/
theorem replaced_card_le_one {k : EdgeKey} {q : PropertyMap} (hq : (legEdges leg)[k]? = some q) :
    ((replaced scan g leg).edgesAt k).card ≤ 1 ↔
      (Kept g leg k.source → Kept g leg k.target → (liveEdges g k).card ≤ 1 ∨ ∃ (key : EdgeKey) (p : PropertyMap),
        (lastScanned scan g)[key]? = some p ∧ key.stamped.edgeKey = k ∧ ¬ propertyNames p ⊆ propertyNames q) := by
  have hk := legEdges_identified hq
  have hcleared : Cleared scan g leg k ↔ ∃ (key : EdgeKey) (p : PropertyMap),
      (lastScanned scan g)[key]? = some p ∧ key.stamped.edgeKey = k ∧ ¬ propertyNames p ⊆ propertyNames q := by
    simp only [Cleared, hq, Option.some.injEq, forall_eq']
  rw [← hcleared]
  by_cases hkept : Kept g leg k.source ∧ Kept g leg k.target
  · obtain ⟨hs, ht⟩ := hkept
    obtain ⟨h1, h2⟩ := replaced_edges_kept scan hk hs ht
    by_cases hc : Cleared scan g leg k
    · rw [h1 hc]; simp [hc]
    · rw [h2 hc]; simp [hc, hs, ht]
  · rw [replaced_edges_dropped hkept]
    simp only [Multiset.card_zero, Nat.zero_le, true_iff]
    exact fun hs ht => absurd ⟨hs, ht⟩ hkept

/-- Upserts never make parallel edges fewer. -/
theorem applyAll_upserts_card {ps : List Primitive} (hps : UpsertOnly ps) {k : EdgeKey} (h : 1 < (g.edgesAt k).card) :
    1 < ((applyAll g ps).edgesAt k).card := by
  induction ps generalizing g with
  | nil => exact h
  | cons p ps ih =>
    refine ih (fun q hq => hps q (List.mem_cons_of_mem _ hq)) ?_
    rcases hps p (by simp) with ⟨n, props, e, rfl⟩ | ⟨e, props, rfl⟩
    · rw [applyOne_eq_write rfl]; exact h
    · rw [applyOne_eq_write rfl, write_edgesAt]
      simp only [edgeStep]
      split
      · rename_i hk; subst hk
        rw [upsertAt_of_ne_zero (by intro h0; rw [h0] at h; simp at h), Multiset.card_map]; exact h
      · exact h

theorem card_slotOf_le (x : Option PropertyMap) : (slotOf x).card ≤ 1 := by
  cases x <;> simp [slotOf]

/-- Each live edge the replacement treats as `k` is scanned under a key that is stamped as `k`. -/
theorem mem_liveEdges {k : EdgeKey} (hk : k.identity ≠ none) {r : PropertyMap} :
    r ∈ liveEdges g k ↔ ∃ key : EdgeKey, r ∈ g.edgesAt key ∧ key.stamped.edgeKey = k := by
  rw [liveEdges, Multiset.mem_add]
  constructor
  · rintro (h | h)
    · exact ⟨k, h, stamped_of_some hk⟩
    · split at h
      · rename_i hleg; exact ⟨k.bare, h, hleg⟩
      · simp at h
  · rintro ⟨key, hr, rfl⟩
    by_cases hkey : key.identity = none
    · have hbare : key.stamped.edgeKey.bare = key := by cases key; cases hkey; rfl
      rw [hbare, if_pos rfl]; exact .inr hr
    · rw [stamped_of_some hkey]; exact .inl hr

theorem card_edgesAt_le_live (key : EdgeKey) : (g.edgesAt key).card ≤ (liveEdges g key.stamped.edgeKey).card := by
  rw [liveEdges, Multiset.card_add]
  by_cases hkey : key.identity = none
  · have hbare : key.stamped.edgeKey.bare = key := by cases key; cases hkey; rfl
    rw [hbare, if_pos rfl]; exact Nat.le_add_left _ _
  · rw [stamped_of_some hkey]; exact Nat.le_add_right _ _

/-- A lone edge is the one the scan answers. -/
theorem scanned_of_lone {k : EdgeKey} (hk : k.identity ≠ none) {r : PropertyMap} (h : liveEdges g k = {r}) :
    ∃ key : EdgeKey, (lastScanned scan g)[key]? = some r ∧ key.stamped.edgeKey = k := by
  obtain ⟨key, hr, rfl⟩ := (mem_liveEdges hk).1 (show r ∈ liveEdges g k by rw [h]; simp)
  have hcard := card_edgesAt_le_live (g := g) key
  rw [h, Multiset.card_singleton] at hcard
  have hne : g.edgesAt key ≠ 0 := by intro h0; rw [h0] at hr; simp at hr
  obtain ⟨x, hx⟩ := Multiset.card_eq_one.1 (le_antisymm hcard (Multiset.card_pos.2 hne))
  obtain ⟨p, hp⟩ := (edgesAt_ne_zero_iff scan).1 hne
  have hpx := mem_of_lastScanned hp
  rw [hx, Multiset.mem_singleton] at hr hpx
  exact ⟨key, by rw [hp, hpx, hr], rfl⟩

/-- The leg over what its replacement left is exactly the leg. -/
theorem holdsExactly_of_replaced (hleg : UpsertOnly leg) (hmiss : ¬ MissingInTurn (replaced scan g leg) leg)
    (hone : ∀ k q, (legEdges leg)[k]? = some q → ((replaced scan g leg).edgesAt k).card ≤ 1) :
    HoldsExactly (applyAll (replaced scan g leg) leg) leg where
  nodes := by
    refine ExtTreeMap.ext_getElem? fun n => ?_
    rw [applyAll_leg_nodes hleg]
    by_cases hk : Kept g leg n
    · rw [replaced_nodes_kept hk]
      cases hv : g.nodes[n]? with
      | none => rfl
      | some v =>
        obtain ⟨w, hw, hin⟩ := hk v hv
        rw [hw]; exact congrArg some (over_of_within hin)
    · rw [replaced_nodes_dropped hk]
  edges := by
    intro k
    rw [applyAll_leg_edges hleg hmiss]
    split
    · rfl
    · rename_i hslot
      have hkept : Kept g leg k.source ∧ Kept g leg k.target := by
        by_contra h; exact hslot (replaced_edges_dropped h)
      have hk : k.identity ≠ none := fun h => hslot (replaced_edges_unidentified h)
      obtain ⟨h1, h2⟩ := replaced_edges_kept scan hk hkept.1 hkept.2
      have hc : ¬ Cleared scan g leg k := fun h => hslot (h1 h)
      have hlive := h2 hc
      have hgiven : ∀ (key : EdgeKey) (p : PropertyMap), (lastScanned scan g)[key]? = some p → key.stamped.edgeKey = k →
          ∃ q, (legEdges leg)[k]? = some q ∧ propertyNames p ⊆ propertyNames q := by
        intro key p hp hkey
        by_contra hno
        exact hc ⟨key, p, hp, hkey, fun q hq hsub => hno ⟨q, hq, hsub⟩⟩
      obtain ⟨r₀, hr₀⟩ := Multiset.exists_mem_of_ne_zero (hlive ▸ hslot)
      obtain ⟨key, hkeyslot, hkey⟩ := (mem_liveEdges hk).1 hr₀
      obtain ⟨p, hp⟩ := (edgesAt_ne_zero_iff scan).1
        (show g.edgesAt key ≠ 0 by intro h0; rw [h0] at hkeyslot; simp at hkeyslot)
      obtain ⟨q, hq, -⟩ := hgiven key p hp hkey
      obtain ⟨r, hr⟩ := Multiset.card_eq_one.1 (le_antisymm (hone k q hq) (Multiset.card_pos.2 hslot))
      obtain ⟨key', hp', hkey'⟩ := scanned_of_lone hk (hlive.symm.trans hr)
      obtain ⟨q', hq', hsub⟩ := hgiven key' r hp' hkey'
      rw [hr, hq', Option.getD_some, Multiset.map_singleton, union_of_names hsub]
      rfl

theorem stampedEdges_upserts (hleg : UpsertOnly leg) : stampedEdges leg = [] := by
  rw [stampedEdges, List.filterMap_eq_nil_iff]
  intro p hp
  rcases hleg p hp with ⟨n, props, e, rfl⟩ | ⟨e, props, rfl⟩ <;> rfl

theorem unobstructed_upserts (hleg : UpsertOnly leg) (g : Graph) : Unobstructed g leg := by
  rintro xs p ys rfl hob
  rcases hleg p (by simp) with ⟨n, props, e, rfl⟩ | ⟨e, props, rfl⟩ <;> exact hob

theorem legEdges_of_mem {e : EdgeBase} {props : PropertyMap} (h : .upsertEdge e props ∈ leg) :
    ∃ q, (legEdges leg)[e.edgeKey]? = some q := by
  induction leg using List.reverseRecOn with
  | nil => simp at h
  | append_singleton leg p ih =>
    rw [legEdges_concat]
    rcases List.mem_append.1 h with h | h
    · obtain ⟨q, hq⟩ := ih h
      cases p with
      | upsertEdge f props' =>
        dsimp only
        split
        · exact ⟨_, rfl⟩
        · exact ⟨q, hq⟩
      | _ => exact ⟨q, hq⟩
    · cases List.mem_singleton.1 h
      exact ⟨_, if_pos rfl⟩

theorem legNodes_of_mem {n : NodeRef} {props : PropertyMap} {e : Option Embedding} (h : .upsertNode n props e ∈ leg) :
    ∃ w, (legNodes leg)[n]? = some w := by
  induction leg using List.reverseRecOn with
  | nil => simp at h
  | append_singleton leg p ih =>
    rw [legNodes_concat]
    rcases List.mem_append.1 h with h | h
    · obtain ⟨q, hq⟩ := ih h
      cases p with
      | upsertNode m props' e' =>
        dsimp only
        split
        · exact ⟨_, rfl⟩
        · exact ⟨q, hq⟩
      | _ => exact ⟨q, hq⟩
    · cases List.mem_singleton.1 h
      exact ⟨_, if_pos rfl⟩

/-- **Nodes to set and then edges between them miss nothing.** -/
theorem nodesFirst_valid {nodes edges : List Primitive}
    (hnodes : ∀ p ∈ nodes, ∃ n props embedding, p = .upsertNode n props embedding)
    (hedges : ∀ p ∈ edges, ∃ e props, p = .upsertEdge e props ∧
      (∃ props' embedding, .upsertNode e.source props' embedding ∈ nodes) ∧
        ∃ props' embedding, .upsertNode e.target props' embedding ∈ nodes)
    (g : Graph) : ¬ MissingInTurn g (nodes ++ edges) := by
  have hleg : UpsertOnly nodes := fun p hp => .inl (hnodes p hp)
  have hthere : ∀ n props embedding, .upsertNode n props embedding ∈ nodes → n ∈ (applyAll g nodes).nodes := by
    intro n props embedding hin
    obtain ⟨w, hw⟩ := legNodes_of_mem hin
    rw [ExtTreeMap.mem_iff_isSome_getElem?, applyAll_leg_nodes hleg, hw]
    cases g.nodes[n]? with
    | none => rfl
    | some v => rfl
  rw [missingInTurn_append, not_or]
  refine ⟨not_missing_of_free fun p hp g => ?_, edges_valid fun p hp => ?_⟩
  · obtain ⟨n, props, embedding, rfl⟩ := hnodes p hp
    exact id
  · obtain ⟨e, props, rfl, ⟨props', embedding, hsource⟩, ⟨props'', embedding', htarget⟩⟩ := hedges p hp
    exact ⟨e, props, rfl, hthere _ _ _ hsource, hthere _ _ _ htarget⟩

theorem mem_replacement_isAdded {p : Primitive} (h : p ∈ replacement (readGraphShape scan g) leg) : IsAdded p := by
  simp only [replacement, List.mem_append, List.mem_map] at h
  rcases h with (⟨e, -, rfl⟩ | ⟨e, -, rfl⟩) | ⟨n, -, rfl⟩ <;> trivial

/-- **Exactly the leg**: what the effective primitives of a replacing leg leave. -/
theorem holdsExactly_iff (hleg : UpsertOnly leg) {effective : List Primitive}
    (hsel : selectEffectivePrimitives scan' g (expandLeg allow scan g leg true) = .ok effective) :
    HoldsExactly (applyAll g effective) leg ↔ NoParallelLeft scan g leg := by
  have hgroup : expandLeg allow scan g leg true = replacement (readGraphShape scan g) leg ++ leg := rfl
  rw [selectEffectivePrimitives, hgroup] at hsel
  obtain ⟨first, rest, o', index', rfl, hfirst, htr, hrest⟩ := selectFrom_replacement
    (readOverlay_traces scan' g _) (fun p hp => List.mem_append_left _ hp) (fun p hp => mem_replacement_isAdded hp) hsel
  have hafter : applyAll g (first ++ rest) = applyAll (replaced scan g leg) rest := by
    rw [applyAll_append, hfirst]; rfl
  rw [hafter]
  have hcards : NoParallelLeft scan g leg ↔
      ∀ k q, (legEdges leg)[k]? = some q → ((replaced scan g leg).edgesAt k).card ≤ 1 :=
    ⟨fun h k q hq => (replaced_card_le_one hq).2 (h k q hq), fun h k q hq => (replaced_card_le_one hq).1 (h k q hq)⟩
  rw [hcards]
  constructor
  · intro hex k q hq
    by_contra hcard
    have hmany := applyAll_upserts_card (fun p hp => hleg p ((selectFrom_sublist hrest).subset hp))
      (not_le.1 hcard)
    rw [hex.edges k] at hmany
    exact absurd (card_slotOf_le _) (not_le.2 hmany)
  · intro hone
    -- from here on the overlay shows the graph on what the leg names
    have hover : Overlays leg o' (replaced scan g leg) := by
      refine ⟨fun n hn => htr.acted n ?_, fun n hn => htr.ends n ?_, fun k hk => ?_⟩
      · rw [actedOnNodes, List.filterMap_append]; exact List.mem_append_right _ hn
      · rw [edgeEndpoints, List.flatMap_append]; exact List.mem_append_right _ hn
      · rw [stampedEdges_upserts hleg, List.append_nil] at hk
        have hk' : k ∈ namedEdges (replacement (readGraphShape scan g) leg ++ leg) ++
            stampedEdges (replacement (readGraphShape scan g) leg ++ leg) := by
          refine List.mem_append_left _ ?_
          rw [namedEdges, List.filterMap_append]; exact List.mem_append_right _ hk
        have hcard : ((replaced scan g leg).edgesAt k).card ≤ 1 := by
          obtain ⟨p, hp, hpk⟩ := List.mem_filterMap.1 hk
          rcases hleg p hp with ⟨n, props, e, rfl⟩ | ⟨e, props, rfl⟩
          · cases hpk
          · cases hpk
            obtain ⟨q, hq⟩ := legEdges_of_mem hp
            exact hone _ q hq
        by_cases h0 : (replaced scan g leg).edgesAt k = 0
        · rw [h0, (htr.taken k hk').2 h0]; rfl
        · obtain ⟨r, hr⟩ := Multiset.card_eq_one.1 (le_antisymm hcard (Multiset.card_pos.2 h0))
          rw [hr, htr.lone k hk' r hr]; rfl
    have hfilter := selectFrom_faithful hover index' (fun _ h => h) (unobstructed_upserts hleg _)
    rw [hrest] at hfilter
    have hmiss : ¬ MissingInTurn (replaced scan g leg) leg := fun hm => by
      obtain ⟨e, he⟩ := hfilter.rejects.2 hm; cases he
    rw [hfilter.sound rest rfl]
    exact holdsExactly_of_replaced hleg hmiss hone

/-! ## A graph that already holds the leg -/

theorem selectFrom_eq_nil {group : List Primitive} {o : Overlay} (h : Overlays group o g) {index : ℕ}
    {ps selected : List Primitive} (hin : ∀ p ∈ ps, p ∈ group) (hob : Unobstructed g ps)
    (hsel : selectFrom o index ps = .ok selected) : selected = [] ↔ ∀ p ∈ ps, applyOne g p = g := by
  induction ps generalizing o index selected with
  | nil => cases hsel; simp
  | cons p ps ih =>
    obtain ⟨changed, o', rest, ho, hrest, rfl⟩ := selectFrom_cons hsel
    have hstep := overlay_apply h index (hin p (by simp)) (hob [] p ps rfl)
    unfold StepFaithful at hstep
    rw [ho] at hstep
    obtain ⟨-, hsim, hchanged⟩ := hstep
    cases changed with
    | true => simpa using fun hp => absurd hp (hchanged.1 rfl)
    | false =>
      have hp : applyOne g p = g := by
        by_contra hne; exact absurd (hchanged.2 hne) (by simp)
      rw [hp] at hsim
      have := ih hsim (fun q hq => hin q (List.mem_cons_of_mem _ hq)) (fun xs q ys he => by
        have := hob (p :: xs) q ys (by rw [he]; rfl)
        rwa [applyAll_cons, hp] at this) hrest
      simpa [hp] using this

theorem holdsExactly_oneEdgePerKey (h : HoldsExactly g leg) : OneEdgePerKey g := fun k => by
  rw [h.edges]; exact card_slotOf_le _

theorem holdsExactly_kept (h : HoldsExactly g leg) (n : NodeRef) : Kept g leg n := fun v hv =>
  ⟨v, by rw [← h.nodes, hv], within_iff.2 ⟨Finset.Subset.refl _, id⟩⟩

/-- A leg is expanded by nothing over a graph that already holds it. -/
theorem replacement_eq_nil (h : HoldsExactly g leg) : replacement (readGraphShape scan g) leg = [] := by
  have hslot : ∀ (key : EdgeKey) (p : PropertyMap), (lastScanned scan g)[key]? = some p → (legEdges leg)[key]? = some p := by
    intro key p hp
    have := mem_of_lastScanned hp
    rw [h.edges] at this
    cases hq : (legEdges leg)[key]? with
    | none => rw [hq] at this; simp [slotOf] at this
    | some q => rw [hq] at this; simp [slotOf] at this; rw [this]
  have hstamped : stampedLive (readGraphShape scan g) leg = [] := by
    refine List.eq_nil_iff_forall_not_mem.2 fun e he => ?_
    obtain ⟨-, hne, -⟩ := mem_stampedLive.1 he
    obtain ⟨p, hp⟩ := (edgesAt_ne_zero_iff scan).1 hne
    exact legEdges_identified (hslot _ p hp) rfl
  have hdeleted : deletedLive (readGraphShape scan g) leg = [] := by
    refine List.eq_nil_iff_forall_not_mem.2 fun e he => ?_
    obtain ⟨⟨key, p, hp, hkey, hno⟩, -⟩ := mem_deletedLive.1 he
    have hq := hslot key p hp
    rw [stamped_of_some (legEdges_identified hq)] at hkey
    exact hno p (hkey ▸ hq) (Finset.Subset.refl _)
  have hdropped : droppedNodes (readGraphShape scan g) leg = [] :=
    List.eq_nil_iff_forall_not_mem.2 fun n hn => mem_droppedNodes.1 hn (holdsExactly_kept h n)
  rw [replacement, hstamped, hdeleted, hdropped]; rfl

theorem upsertNode_noop_iff (h : HoldsExactly g leg) {n : NodeRef} {props : PropertyMap} {e : Option Embedding}
    (hin : .upsertNode n props e ∈ leg) :
    applyOne g (.upsertNode n props e) = g ↔ ∀ w, (legNodes leg)[n]? = some w → w.upsert props e = w := by
  obtain ⟨w, hw⟩ := legNodes_of_mem hin
  have hg : g.nodes[n]? = some w := by rw [h.nodes, hw]
  have hnodes : ∀ m, (applyOne g (.upsertNode n props e)).nodes[m]? =
      if n = m then some (w.upsert props e) else g.nodes[m]? := by
    intro m
    rw [applyOne_eq_write rfl, write_nodes, nodeStep]
    split
    · rename_i hm; rw [← hm, hg]; rfl
    · rfl
  simp only [hw, Option.some.injEq, forall_eq']
  constructor
  · intro heq
    have := hnodes n
    rw [heq, if_pos rfl, hg] at this
    exact (Option.some.inj this).symm
  · intro heq
    refine ext_at (fun m => ?_) fun k => by rw [applyOne_eq_write rfl]; rfl
    rw [hnodes]
    split
    · rename_i hm; subst hm; rw [heq, hg]
    · rfl

theorem upsertEdge_noop_iff (h : HoldsExactly g leg) {e : EdgeBase} {props : PropertyMap}
    (hin : .upsertEdge e props ∈ leg) :
    applyOne g (.upsertEdge e props) = g ↔ ∀ q, (legEdges leg)[e.edgeKey]? = some q → q ∪ props = q := by
  obtain ⟨q, hq⟩ := legEdges_of_mem hin
  have hslot : g.edgesAt e.edgeKey = {q} := by rw [h.edges, hq]; rfl
  have hat : ∀ k, (applyOne g (.upsertEdge e props)).edgesAt k =
      if e.edgeKey = k then {q ∪ props} else g.edgesAt k := by
    intro k
    rw [applyOne_eq_write rfl, write_edgesAt]
    simp only [edgeStep]
    split
    · rename_i hk; subst hk; rw [upsertAt_of_ne_zero (by rw [hslot]; simp), hslot]; rfl
    · rfl
  simp only [hq, Option.some.injEq, forall_eq']
  constructor
  · intro heq
    have := hat e.edgeKey
    rw [heq, if_pos rfl, hslot] at this
    exact (Multiset.singleton_inj.1 this).symm
  · intro heq
    refine ext_at (fun m => by rw [applyOne_eq_write rfl]; rfl) fun k => ?_
    rw [hat]
    split
    · rename_i hk; subst hk; rw [heq, hslot]
    · rfl

/-- **Nothing is logged for a graph that already holds the leg**, when no upsert overwrites another. -/
theorem effective_eq_nil_iff (hleg : UpsertOnly leg) (h : HoldsExactly g leg) {effective : List Primitive}
    (hsel : selectEffectivePrimitives scan' g (expandLeg allow scan g leg true) = .ok effective) :
    effective = [] ↔ NoOverwrite leg := by
  have hgroup : expandLeg allow scan g leg true = leg := by
    show replacement (readGraphShape scan g) leg ++ leg = leg
    rw [replacement_eq_nil h]; rfl
  rw [hgroup] at hsel
  rw [selectFrom_eq_nil (readOverlay_overlays scan' (holdsExactly_oneEdgePerKey h) leg) (fun _ h => h)
    (unobstructed_upserts hleg g) hsel]
  constructor
  · exact fun hall => ⟨fun n props e hin => (upsertNode_noop_iff h hin).1 (hall _ hin),
      fun e props hin => (upsertEdge_noop_iff h hin).1 (hall _ hin)⟩
  · intro hno p hp
    rcases hleg p hp with ⟨n, props, e, rfl⟩ | ⟨e, props, rfl⟩
    · exact (upsertNode_noop_iff h hp).2 (hno.1 n props e hp)
    · exact (upsertEdge_noop_iff h hp).2 (hno.2 e props hp)

/-- **When a replacing leg leaves exactly the leg**, and logs nothing for a graph that already holds it. -/
theorem replace_exact_iff (allow : AllowList) (scan scan' : ScanOrder) (g : Graph) (leg : List Primitive)
    (hleg : UpsertOnly leg) (effective : List Primitive)
    (hsel : selectEffectivePrimitives scan' g (expandLeg allow scan g leg true) = .ok effective) :
    (HoldsExactly (applyAll g effective) leg ∧ (HoldsExactly g leg → effective = [])) ↔
      NoParallelLeft scan g leg ∧ (HoldsExactly g leg → NoOverwrite leg) := by
  rw [holdsExactly_iff hleg hsel]
  exact and_congr_right fun _ => forall_congr' fun h => effective_eq_nil_iff hleg h hsel

end Exact

/-! ## Two identity-less edges in parallel -/

/-- The two nodes of `legacyGraph` with two identity-less edges between them. -/
def parallelGraph : Graph where
  nodes := legacyGraph.nodes
  edges := {(legacyEdge.unidentifiedKey, ∅), (legacyEdge.unidentifiedKey, ∅)}
  closed := by
    intro e he
    have hkey : e.1 = legacyEdge.unidentifiedKey := by
      simp only [Multiset.insert_eq_cons, Multiset.mem_cons, Multiset.mem_singleton, or_self] at he
      rw [he]
    rw [hkey]
    decide

/-- The leg that holds the two nodes and one edge between them. -/
def legacyLeg : List Primitive :=
  [.upsertNode legacyEdge.source ∅ none, .upsertNode legacyEdge.target ∅ none, .upsertEdge legacyEdge ∅]

theorem legacyLeg_upsertOnly : UpsertOnly legacyLeg := by
  intro p hp
  simp only [legacyLeg, List.mem_cons, List.not_mem_nil, or_false] at hp
  rcases hp with rfl | rfl | rfl
  · exact .inl ⟨_, _, _, rfl⟩
  · exact .inl ⟨_, _, _, rfl⟩
  · exact .inr ⟨_, _, rfl⟩

theorem ScanOrder.order_pair (scan : ScanOrder) (e : EdgeKey × PropertyMap) : scan.order {e, e} = [e, e] := by
  have h := scan.perm {e, e}
  have hrep : ({e, e} : Multiset (EdgeKey × PropertyMap)) = ((List.replicate 2 e : List _) : Multiset _) := rfl
  rw [hrep, Multiset.coe_eq_coe] at h
  exact List.perm_replicate.1 h

/-- The stamp takes both edges, and the leg's own upsert finds them as they should be. -/
theorem parallel_effective (allow : AllowList) (scan scan' : ScanOrder) :
    selectEffectivePrimitives scan' parallelGraph (expandLeg allow scan parallelGraph legacyLeg true) =
      .ok [.stampEdgeIdentity legacyEdge] := by
  simp only [selectEffectivePrimitives, readOverlay, readEdges, expandLeg, if_true, readGraphShape, lastScanned,
    parallelGraph, ScanOrder.order_pair]
  decide +kernel

/-- **Parallel identity-less edges survive a replacement**: both end as the leg's one edge. -/
theorem replace_keeps_parallel_edges :
    ¬ ∀ (allow : AllowList) (scan scan' : ScanOrder) (g : Graph) (leg effective : List Primitive), UpsertOnly leg →
      selectEffectivePrimitives scan' g (expandLeg allow scan g leg true) = .ok effective →
      HoldsExactly (applyAll g effective) leg ∧ (HoldsExactly g leg → effective = []) := by
  intro h
  have hex := (h ⟨[], []⟩ default default parallelGraph legacyLeg _ legacyLeg_upsertOnly (parallel_effective _ _ _)).1
  have hslot : (applyAll parallelGraph [.stampEdgeIdentity legacyEdge]).edgesAt legacyEdge.edgeKey = {∅, ∅} := by decide
  rw [hex.edges] at hslot
  have := congrArg Multiset.card hslot
  exact absurd (card_slotOf_le (legEdges legacyLeg)[legacyEdge.edgeKey]?) (by rw [this]; decide)

theorem replace_exact_iff_legacy :
    (HoldsExactly (applyAll legacyGraph [.stampEdgeIdentity legacyEdge]) legacyLeg ∧
        (HoldsExactly legacyGraph legacyLeg → [Primitive.stampEdgeIdentity legacyEdge] = [])) ↔
      NoParallelLeft default legacyGraph legacyLeg ∧ (HoldsExactly legacyGraph legacyLeg → NoOverwrite legacyLeg) := by
  refine replace_exact_iff ⟨[], []⟩ default default legacyGraph legacyLeg legacyLeg_upsertOnly _ ?_
  have hedges : legacyGraph.edges = {(legacyEdge.unidentifiedKey, (∅ : PropertyMap))} := by decide
  simp only [selectEffectivePrimitives, readOverlay, readEdges, expandLeg, if_true, readGraphShape, lastScanned,
    hedges, ScanOrder.order_singleton]
  decide +kernel

end PolicySystem
