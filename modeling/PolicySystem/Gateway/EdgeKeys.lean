import PolicySystem.Gateway.Redo
import PolicySystem.Cleanup.GroupBuilders

/-!
# The keys of a graph's edges

What each primitive does to the keys under which a graph stores its edges, parallel ones counted each, and what a group
that changes nothing leaves.

* `edgeKeys_upsertEdge`, `edgeKeys_deleteEdge`, `edgeKeys_deleteNode`, `edgeKeys_stamp`: one primitive;
* `selected_none`: a group none of whose primitives is effective leaves nodes and keys.
-/

namespace PolicySystem

open Std (ExtTreeMap)
open PropertyGraph GraphWrite

/-- The keys of the stored edges. -/
def edgeKeys (g : Graph) : Multiset EdgeKey := g.edges.map Prod.fst

section Primitives

variable {g g' : Graph} {k : EdgeKey}

theorem mem_edgeKeys : k ∈ edgeKeys g ↔ g.edgesAt k ≠ 0 := by
  unfold edgeKeys
  rw [Multiset.mem_map]
  constructor
  · rintro ⟨⟨k', v⟩, he, rfl⟩ h0
    have hv : v ∈ g.edgesAt k' := mem_edgesAt.2 he
    rw [h0] at hv
    exact Multiset.notMem_zero v hv
  · intro hk
    obtain ⟨v, hv⟩ := Multiset.exists_mem_of_ne_zero hk
    exact ⟨(k, v), mem_edgesAt.1 hv, rfl⟩

theorem shows_iff_key {r : EdgeRecord} : Shows g r ↔ ∃ k ∈ edgeKeys g, k.record = r := by
  simp only [shows_iff, mem_edgeKeys, and_comm]

/-- No edge dangles. -/
theorem ends_of_mem (h : k ∈ edgeKeys g) : k.source ∈ g.nodes ∧ k.target ∈ g.nodes := by
  obtain ⟨e, he, rfl⟩ := Multiset.mem_map.1 h
  exact g.closed e he

theorem edgeKeys_put {n : NodeRef} {f : Option NodeContent → NodeContent} : edgeKeys (g.setNode n f) = edgeKeys g := rfl

theorem edgeKeys_edit {n : NodeRef} {f : NodeContent → NodeContent} : edgeKeys (g.editNode n f) = edgeKeys g := rfl

theorem edgeKeys_upsertNode {n : NodeRef} {props : PropertyMap} {e : Option Embedding} :
    edgeKeys (applyOne g (.upsertNode n props e)) = edgeKeys g := by
  rw [applyOne_eq_write rfl]
  rfl

theorem edgeKeys_mergeProperty {n : NodeRef} {props : PropertyMap} :
    edgeKeys (applyOne g (.mergeProperty n props)) = edgeKeys g := by
  rw [applyOne_eq_write rfl]
  rfl

theorem edgeKeys_removeProperty {n : NodeRef} {keys : List String} :
    edgeKeys (applyOne g (.removeProperty n keys)) = edgeKeys g := by
  rw [applyOne_eq_write rfl]
  rfl

/-- An upsert adds its key where no edge has it and both endpoints exist. -/
theorem edgeKeys_upsertEdge {e : EdgeBase} {props : PropertyMap} :
    edgeKeys (applyOne g (.upsertEdge e props)) =
      if g.hasEnds e.edgeKey = true ∧ e.edgeKey ∉ edgeKeys g then e.edgeKey ::ₘ edgeKeys g else edgeKeys g := by
  rw [applyOne_eq_write rfl]
  have hkept : ((g.edges.map fun x : EdgeKey × PropertyMap =>
      if x.1 = e.edgeKey then (e.edgeKey, x.2 ∪ props) else x).map Prod.fst) = edgeKeys g := by
    rw [Multiset.map_map]
    refine Multiset.map_congr rfl fun x _ => ?_
    simp only [Function.comp]
    split
    · rename_i heq
      exact heq.symm
    · rfl
  have hnone : (∀ x ∈ g.edges, x.1 ≠ e.edgeKey) ↔ e.edgeKey ∉ edgeKeys g := by
    simp only [edgeKeys, Multiset.mem_map, not_exists, not_and]
  have hput : edgeKeys (g.write (.putEdge e.edgeKey (· ∪ props))) = Multiset.map Prod.fst
      (if g.hasEnds e.edgeKey = true ∧ ∀ x ∈ g.edges, x.1 ≠ e.edgeKey then (e.edgeKey, default ∪ props) ::ₘ g.edges
        else g.edges.map fun x => if x.1 = e.edgeKey then (e.edgeKey, x.2 ∪ props) else x) := rfl
  rw [hput]
  by_cases hnew : g.hasEnds e.edgeKey = true ∧ ∀ x ∈ g.edges, x.1 ≠ e.edgeKey
  · rw [if_pos hnew, if_pos ⟨hnew.1, hnone.1 hnew.2⟩, Multiset.map_cons]
    rfl
  · rw [if_neg hnew, if_neg fun h => hnew ⟨h.1, hnone.2 h.2⟩]
    exact hkept

theorem edgeKeys_deleteEdge {e : EdgeBase} :
    edgeKeys (applyOne g (.deleteEdge e)) = (edgeKeys g).filter (· ≠ e.edgeKey) := by
  rw [applyOne_eq_write rfl]
  simp only [edgeKeys, write, deleteEdges]
  rw [Multiset.filter_map]
  rfl

theorem edgeKeys_deleteNode {n : NodeRef} :
    edgeKeys (applyOne g (.deleteNode n)) = (edgeKeys g).filter fun k => k.source ≠ n ∧ k.target ≠ n := by
  rw [applyOne_eq_write rfl]
  simp only [edgeKeys, write, PropertyGraph.deleteNode]
  rw [Multiset.filter_map]
  rfl

/-- A stamp gives the edges under the key without an identity the key with it. -/
theorem edgeKeys_stamp {e : EdgeBase} :
    edgeKeys (applyOne g (.stampEdgeIdentity e)) =
      (edgeKeys g).map fun k => if k = e.unidentifiedKey then e.edgeKey else k := by
  rw [applyOne_stamp]
  simp only [edgeKeys, stampEdge, rekeyEdges, Multiset.map_map]
  refine Multiset.map_congr rfl fun x _ => ?_
  simp only [Function.comp]
  split <;> rfl

/-- A key without an identity was there before, and no stamp took it. -/
theorem unidentified_after {p : Primitive} (hk : k.identity = none) (h : k ∈ edgeKeys (applyOne g p)) :
    k ∈ edgeKeys g ∧ ∀ e, p = .stampEdgeIdentity e → k ≠ e.unidentifiedKey := by
  have hidentified : ∀ e : EdgeBase, k ≠ e.edgeKey := by
    rintro e rfl
    cases hk
  cases p with
  | upsertNode n props e =>
    rw [edgeKeys_upsertNode] at h
    exact ⟨h, fun e heq => by cases heq⟩
  | mergeProperty n props =>
    rw [edgeKeys_mergeProperty] at h
    exact ⟨h, fun e heq => by cases heq⟩
  | removeProperty n keys =>
    rw [edgeKeys_removeProperty] at h
    exact ⟨h, fun e heq => by cases heq⟩
  | upsertEdge e props =>
    refine ⟨?_, fun e heq => by cases heq⟩
    rw [edgeKeys_upsertEdge] at h
    split at h
    · exact (Multiset.mem_cons.1 h).resolve_left (hidentified e)
    · exact h
  | deleteEdge e =>
    rw [edgeKeys_deleteEdge] at h
    exact ⟨(Multiset.mem_filter.1 h).1, fun e heq => by cases heq⟩
  | deleteNode n =>
    rw [edgeKeys_deleteNode] at h
    exact ⟨(Multiset.mem_filter.1 h).1, fun e heq => by cases heq⟩
  | stampEdgeIdentity e =>
    rw [edgeKeys_stamp] at h
    obtain ⟨j, hj, heq⟩ := Multiset.mem_map.1 h
    split at heq
    · exact absurd heq.symm (hidentified e)
    · rename_i hne
      rw [← heq]
      refine ⟨hj, fun e' he' => ?_⟩
      cases he'
      exact hne

end Primitives

/-! ## Groups that change nothing -/

/-- What the filter read, as far as it decides that a primitive is a no-op. -/
structure Sees (group : List Primitive) (o : Overlay) (g : Graph) : Prop where
  acted : ∀ n ∈ actedOnNodes group, o.nodes[n]? = g.nodes[n]?
  named : ∀ k ∈ namedEdges group ++ stampedEdges group, k ∈ o.edges ↔ k ∈ edgeKeys g

theorem mem_readEdges_iff {scan : ScanOrder} {g : Graph} {ks : List EdgeKey} {k : EdgeKey} :
    k ∈ readEdges scan g ks ↔ k ∈ ks ∧ k ∈ edgeKeys g := by
  have hgen : ∀ (xs : List (EdgeKey × PropertyMap)) (found : ExtTreeMap EdgeKey PropertyMap),
      k ∈ xs.foldl (fun found e => if e.1 ∈ ks then found.insert e.1 e.2 else found) found ↔
        k ∈ found ∨ k ∈ ks ∧ k ∈ xs.map Prod.fst := by
    intro xs
    induction xs with
    | nil => simp
    | cons x xs ih =>
      intro found
      rw [List.foldl_cons, ih]
      by_cases hx : x.1 ∈ ks
      · simp only [hx, if_true, ExtTreeMap.mem_insert, Std.LawfulEqCmp.compare_eq_iff_eq, List.map_cons, List.mem_cons]
        constructor
        · rintro ((rfl | h) | ⟨hks, h⟩)
          · exact .inr ⟨hx, .inl rfl⟩
          · exact .inl h
          · exact .inr ⟨hks, .inr h⟩
        · rintro (h | ⟨hks, rfl | h⟩)
          · exact .inl (.inr h)
          · exact .inl (.inl rfl)
          · exact .inr ⟨hks, h⟩
      · simp only [hx, if_false, List.map_cons, List.mem_cons]
        constructor
        · rintro (h | ⟨hks, h⟩)
          · exact .inl h
          · exact .inr ⟨hks, .inr h⟩
        · rintro (h | ⟨hks, rfl | h⟩)
          · exact .inl h
          · exact absurd hks hx
          · exact .inr ⟨hks, h⟩
  have hkeys : k ∈ (scan.order g.edges).map Prod.fst ↔ k ∈ edgeKeys g := by
    rw [edgeKeys, ← scan.perm g.edges, Multiset.map_coe, Multiset.mem_coe, scan.perm]
  rw [readEdges, hgen, hkeys]
  simp

theorem readOverlay_sees (scan : ScanOrder) (g : Graph) (group : List Primitive) :
    Sees group (readOverlay scan g group) g where
  acted := (readOverlay_nodes scan g group).1
  named k hk := by
    simp only [readOverlay, ExtTreeMap.mem_union_iff, mem_readEdges_iff]
    rcases List.mem_append.1 hk with hk | hk
    · simp only [hk, true_and]
      tauto
    · simp only [hk, true_and]
      tauto

/-- A primitive the filter drops leaves the nodes and the keys. -/
theorem dropped_keeps {group : List Primitive} {o o' : Overlay} {g : Graph} {index : ℕ} {p : Primitive}
    (hsees : Sees group o g) (hp : p ∈ group) (h : o.apply index p = .ok (false, o')) :
    o' = o ∧ (∀ n : NodeRef, (applyOne g p).nodes[n]? = g.nodes[n]?) ∧ edgeKeys (applyOne g p) = edgeKeys g := by
  cases p with
  | upsertNode n props e =>
    have hn := hsees.acted n (mem_actedOn_upsertNode hp)
    refine ⟨?_, fun m => ?_, edgeKeys_upsertNode⟩
    · simp only [Overlay.apply] at h
      split at h
      · split at h
        · cases h
          rfl
        · cases h
      · cases h
    · rw [applyOne_eq_write rfl, write_nodes, nodeStep]
      simp only [Overlay.apply] at h
      split at h
      · rename_i current hget
        split at h
        · rename_i hholds
          split
          · rename_i heq
            subst heq
            rw [← hn, hget]
            simp only [Option.getD_some]
            rw [NodeContent.alreadyHolds_iff.1 hholds]
          · rfl
        · cases h
      · cases h
  | mergeProperty n props =>
    have hn := hsees.acted n (mem_actedOn_mergeProperty hp)
    refine ⟨?_, fun m => ?_, edgeKeys_mergeProperty⟩
    · simp only [Overlay.apply] at h
      split at h
      · cases h
      · split at h
        · cases h
          rfl
        · cases h
    · rw [applyOne_eq_write rfl, write_nodes, nodeStep]
      simp only [Overlay.apply] at h
      split at h
      · cases h
      · rename_i current hget
        split at h
        · rename_i hholds
          split
          · rename_i heq
            subst heq
            rw [← hn, hget, Option.map_some, merge_eq_iff.1 hholds]
          · rfl
        · cases h
  | removeProperty n keys =>
    have hn := hsees.acted n (mem_actedOn_removeProperty hp)
    refine ⟨?_, fun m => ?_, edgeKeys_removeProperty⟩
    · simp only [Overlay.apply] at h
      split at h
      · cases h
        rfl
      · split at h
        · cases h
        · cases h
          rfl
    · rw [applyOne_eq_write rfl, write_nodes, nodeStep]
      simp only [Overlay.apply] at h
      split
      · rename_i heq
        subst heq
        split at h
        · rename_i hget
          rw [← hn, hget]
          rfl
        · rename_i current hget
          split at h
          · cases h
          · rename_i hno
            rw [← hn, hget, Option.map_some]
            congr 1
            refine remove_eq_iff.1 ?_
            simpa using hno
      · rfl
  | deleteNode n =>
    have hn := hsees.acted n (mem_actedOn_deleteNode hp)
    simp only [Overlay.apply] at h
    split at h
    · cases h
    · rename_i habsent
      cases h
      have hgone : n ∉ g.nodes := by
        rw [ExtTreeMap.mem_iff_isSome_getElem?, ← hn, ← ExtTreeMap.mem_iff_isSome_getElem?]
        exact habsent
      refine ⟨rfl, fun m => ?_, ?_⟩
      · rw [applyOne_eq_write rfl, write_nodes, nodeStep]
        split
        · rename_i heq
          subst heq
          exact (getElem?_eq_none_of_notMem hgone).symm
        · rfl
      · rw [edgeKeys_deleteNode, Multiset.filter_eq_self]
        intro k hk
        obtain ⟨hsource, htarget⟩ := ends_of_mem hk
        constructor
        · rintro rfl
          exact hgone hsource
        · rintro rfl
          exact hgone htarget
  | upsertEdge e props =>
    have hkey := hsees.named e.edgeKey (mem_named_upsertEdge hp)
    simp only [Overlay.apply] at h
    split at h
    · split at h
      · rename_i current hget
        split at h
        · cases h
          refine ⟨rfl, fun m => ?_, ?_⟩
          · rw [applyOne_eq_write rfl, write_nodes]
            rfl
          · have hthere : e.edgeKey ∈ edgeKeys g := hkey.1 (ExtTreeMap.mem_iff_isSome_getElem?.2 (by rw [hget]; rfl))
            rw [edgeKeys_upsertEdge, if_neg fun hno => hno.2 hthere]
        · cases h
      · cases h
    · cases h
  | deleteEdge e =>
    have hkey := hsees.named e.edgeKey (mem_named_deleteEdge hp)
    simp only [Overlay.apply] at h
    split at h
    · cases h
    · rename_i habsent
      cases h
      refine ⟨rfl, fun m => ?_, ?_⟩
      · rw [applyOne_eq_write rfl, write_nodes]
        rfl
      · rw [edgeKeys_deleteEdge, Multiset.filter_eq_self]
        rintro k hk rfl
        exact habsent (hkey.2 hk)
  | stampEdgeIdentity e =>
    have hkey := hsees.named e.unidentifiedKey (mem_named_stamp hp)
    simp only [Overlay.apply] at h
    split at h
    · rename_i hget
      cases h
      refine ⟨rfl, fun m => by rw [applyOne_stamp, stampEdge_nodes], ?_⟩
      rw [edgeKeys_stamp]
      conv_rhs => rw [← Multiset.map_id (edgeKeys g)]
      refine Multiset.map_congr rfl fun k hk => ?_
      rw [if_neg]
      · rfl
      · rintro rfl
        have hmem := hkey.2 hk
        rw [ExtTreeMap.mem_iff_isSome_getElem?, hget] at hmem
        cases hmem
    · cases h

/-- **A group none of whose primitives is effective** leaves the nodes and the keys of the edges. -/
theorem selected_none {scan : ScanOrder} {g : Graph} {group : List Primitive}
    (h : selectEffectivePrimitives scan g group = .ok []) :
    (∀ n : NodeRef, (applyAll g group).nodes[n]? = g.nodes[n]?) ∧ edgeKeys (applyAll g group) = edgeKeys g := by
  have hgen : ∀ (ps : List Primitive) (o : Overlay) (g' : Graph) (index : ℕ), (∀ p ∈ ps, p ∈ group) → Sees group o g' →
      selectFrom o index ps = .ok [] →
      (∀ n : NodeRef, (applyAll g' ps).nodes[n]? = g'.nodes[n]?) ∧ edgeKeys (applyAll g' ps) = edgeKeys g' := by
    intro ps
    induction ps with
    | nil => exact fun o g' index _ _ _ => ⟨fun _ => rfl, rfl⟩
    | cons p ps ih =>
      intro o g' index hin hsees hselect
      have hp : p ∈ group := hin p (by simp)
      simp only [selectFrom, bind, Except.bind, pure, Except.pure] at hselect
      split at hselect
      · cases hselect
      · rename_i answer happly
        split at hselect
        · cases hselect
        · rename_i rest hrest
          obtain ⟨changed, o'⟩ := answer
          cases changed with
          | true => cases hselect
          | false =>
            obtain ⟨rfl, hnodes, hkeys⟩ := dropped_keeps hsees hp happly
            have hsees' : Sees group o' (applyOne g' p) := by
              refine ⟨fun n hn => ?_, fun k hk => ?_⟩
              · rw [hsees.acted n hn, hnodes]
              · rw [hsees.named k hk, hkeys]
            have hnil : rest = [] := by
              simpa using hselect
            rw [hnil] at hrest
            obtain ⟨hnodes', hkeys'⟩ := ih o' (applyOne g' p) (index + 1) (fun q hq => hin q (by simp [hq])) hsees' hrest
            rw [applyAll_cons]
            exact ⟨fun n => (hnodes' n).trans (hnodes n), hkeys'.trans hkeys⟩
  exact hgen group _ g 0 (fun _ hp => hp) (readOverlay_sees scan g group) h

end PolicySystem
