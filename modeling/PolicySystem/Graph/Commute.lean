import PolicySystem.Graph.Reapply

/-!
# Writes that commute

Two writes of a property graph that set different nodes and edges, and of which neither sets an endpoint of an edge
the other creates, commute in every graph.

* `Apart`: what two writes must not share;
* `write_comm`, `writeAll_comm`: writes apart from each other commute;
* `writeAll_perm`: blocks of writes that are pairwise apart give one graph in every order;
* `write_nodes_frame`, `write_edgesAt_frame`: what a write leaves alone.
-/

set_option linter.unusedSectionVars false

open Std (ExtTreeMap TransOrd LawfulEqOrd)

namespace PropertyGraph

open Incidence GraphWrite

variable {N V K P : Type} [Ord N] [TransOrd N] [LawfulEqOrd N] [Incidence K N] [DecidableEq N] [DecidableEq K]
variable [Inhabited V] [Inhabited P]

/-- The node a write sets. -/
def SetsNode : GraphWrite N V K P → N → Prop
  | put m _, n => m = n
  | edit m _, n => m = n
  | drop m, n => m = n
  | _, _ => False

/-- The edges a write sets by their key; the edges at a dropped node are not named by the write. -/
def SetsEdges : GraphWrite N V K P → K → Prop
  | putEdge j _, k => j = k
  | dropEdges j, k => j = k
  | _, _ => False

/-- The endpoints a write creates an edge between. -/
def Joins : GraphWrite N V K P → N → Prop
  | putEdge k _, n => source k = n ∨ target k = n
  | _, _ => False

/-- **Two writes share nothing**: no node, no edge key, and neither sets an endpoint the other joins. -/
structure Apart (w v : GraphWrite N V K P) : Prop where
  nodes : ∀ n, SetsNode w n → ¬ SetsNode v n
  edges : ∀ k : K, SetsEdges w k → ¬ SetsEdges v k
  joined : ∀ n, SetsNode w n → ¬ Joins v n
  joins : ∀ n, Joins w n → ¬ SetsNode v n

theorem Apart.symm {w v : GraphWrite N V K P} (h : Apart w v) : Apart v w where
  nodes n hv hw := h.nodes n hw hv
  edges k hv hw := h.edges k hw hv
  joined n hv hw := h.joins n hw hv
  joins n hv hw := h.joined n hw hv

/-- A write leaves a node it does not set. -/
theorem nodeStep_of_not_sets {w : GraphWrite N V K P} {n : N} (h : ¬ SetsNode w n) (v : Option V) :
    nodeStep n v w = v := by
  cases w with
  | put m f => exact if_neg h
  | edit m f => exact if_neg h
  | drop m => exact if_neg h
  | putEdge k f => rfl
  | dropEdges k => rfl

theorem write_nodes_frame (g : PropertyGraph N V K P) {w : GraphWrite N V K P} {n : N} (h : ¬ SetsNode w n) :
    (g.write w).nodes[n]? = g.nodes[n]? := by
  rw [write_nodes, nodeStep_of_not_sets h]

/-- A write leaves the edges of a key it does not set, unless it drops one of their ends. -/
theorem write_edgesAt_frame (g : PropertyGraph N V K P) {w : GraphWrite N V K P} {k : K} (h : ¬ SetsEdges w k)
    (hends : g.edgesAt k = 0 ∨ ¬ SetsNode w (source k) ∧ ¬ SetsNode w (target k)) :
    (g.write w).edgesAt k = g.edgesAt k := by
  rw [write_edgesAt]
  cases w with
  | put m f => rfl
  | edit m f => rfl
  | drop m =>
    rcases hends with hzero | ⟨hs, ht⟩
    · rw [hzero]
      exact ite_self _
    · have hfree : ¬ (source k = m ∨ target k = m) := fun hm => hm.elim (fun hm => hs hm.symm) fun hm => ht hm.symm
      exact if_neg hfree
  | putEdge j f => exact if_neg h
  | dropEdges j => exact if_neg h

theorem hasEnds_of_nodes {g h : PropertyGraph N V K P} {k : K} (hs : g.nodes[(source k : N)]? = h.nodes[(source k : N)]?)
    (ht : g.nodes[(target k : N)]? = h.nodes[(target k : N)]?) : g.hasEnds k = h.hasEnds k := by
  have hmem : ∀ n : N, g.nodes[n]? = h.nodes[n]? → (n ∈ g.nodes ↔ n ∈ h.nodes) := fun n hn => by
    rw [ExtTreeMap.mem_iff_isSome_getElem?, ExtTreeMap.mem_iff_isSome_getElem?, hn]
  simp only [hasEnds, hmem _ hs, hmem _ ht]

theorem nodeStep_comm {w v : GraphWrite N V K P} (h : Apart w v) (n : N) (x : Option V) :
    nodeStep n (nodeStep n x w) v = nodeStep n (nodeStep n x v) w := by
  by_cases hw : SetsNode w n
  · have hv := h.nodes n hw
    rw [nodeStep_of_not_sets hv, nodeStep_of_not_sets hv]
  · rw [nodeStep_of_not_sets hw, nodeStep_of_not_sets hw]

/-- A write that neither sets the edges of a key nor drops one of their ends leaves them. -/
theorem edgeStep_frame {w : GraphWrite N V K P} {k : K} (hw : ¬ SetsEdges w k) (hs : ¬ SetsNode w (source k))
    (ht : ¬ SetsNode w (target k)) (ends : Bool) (m : Multiset P) : edgeStep k ends m w = m := by
  cases w with
  | put n f => rfl
  | edit n f => rfl
  | drop n =>
    have hfree : ¬ (source k = n ∨ target k = n) := fun h => h.elim (fun h => hs h.symm) fun h => ht h.symm
    exact if_neg hfree
  | putEdge j f => exact if_neg hw
  | dropEdges j => exact if_neg hw

/-- A write that does not set the edges of a key leaves or drops them. -/
theorem edgeStep_keeps_or_clears {w : GraphWrite N V K P} {k : K} (hw : ¬ SetsEdges w k) :
    (∀ ends (m : Multiset P), edgeStep k ends m w = m) ∨ ∀ ends (m : Multiset P), edgeStep k ends m w = 0 := by
  cases w with
  | put n f => exact .inl fun ends m => rfl
  | edit n f => exact .inl fun ends m => rfl
  | drop n =>
    by_cases h : source k = n ∨ target k = n
    · exact .inr fun ends m => if_pos h
    · exact .inl fun ends m => if_neg h
  | putEdge j f => exact .inl fun ends m => if_neg hw
  | dropEdges j => exact .inl fun ends m => if_neg hw

/-- The edges of a key that the first write sets: the second neither sets them nor an end they need. -/
theorem write_comm_at {w v : GraphWrite N V K P} (h : Apart w v) (g : PropertyGraph N V K P) {k : K}
    (hw : SetsEdges w k) : ((g.write w).write v).edgesAt k = ((g.write v).write w).edgesAt k := by
  have hv : ¬ SetsEdges v k := h.edges k hw
  rw [write_edgesAt _ v, write_edgesAt _ w, write_edgesAt _ w, write_edgesAt _ v]
  cases w with
  | putEdge j f =>
    obtain rfl : j = k := hw
    have hs : ¬ SetsNode v (source j) := h.joins _ (.inl rfl)
    have ht : ¬ SetsNode v (target j) := h.joins _ (.inr rfl)
    rw [edgeStep_frame hv hs ht, edgeStep_frame hv hs ht,
      hasEnds_of_nodes (write_nodes_frame g hs) (write_nodes_frame g ht)]
  | dropEdges j =>
    obtain rfl : j = k := hw
    have hzero : ∀ (ends : Bool) (m : Multiset P), edgeStep j ends m (dropEdges j : GraphWrite N V K P) = 0 :=
      fun ends m => if_pos rfl
    rw [hzero, hzero]
    rcases edgeStep_keeps_or_clears hv with hkeep | hclear
    · exact hkeep _ _
    · exact hclear _ _
  | put n f => exact absurd hw id
  | edit n f => exact absurd hw id
  | drop n => exact absurd hw id

variable [DecidableEq P]

/-- **Writes apart from each other commute.** -/
theorem write_comm {w v : GraphWrite N V K P} (h : Apart w v) (g : PropertyGraph N V K P) :
    (g.write w).write v = (g.write v).write w := by
  refine ext_at (fun n => ?_) fun k => ?_
  · rw [write_nodes, write_nodes, write_nodes, write_nodes, nodeStep_comm h]
  · by_cases hw : SetsEdges w k
    · exact write_comm_at h g hw
    · by_cases hv : SetsEdges v k
      · exact (write_comm_at h.symm g hv).symm
      · -- neither names the edges: each leaves them or drops them
        rw [write_edgesAt _ v, write_edgesAt _ w, write_edgesAt _ w, write_edgesAt _ v]
        rcases edgeStep_keeps_or_clears hw with hw | hw <;> rcases edgeStep_keeps_or_clears hv with hv | hv <;>
          simp only [hw, hv]

theorem writeAll_write_comm {w : GraphWrite N V K P} {F : List (GraphWrite N V K P)} (h : ∀ v ∈ F, Apart w v)
    (g : PropertyGraph N V K P) : (g.write w).writeAll F = (g.writeAll F).write w := by
  induction F generalizing g with
  | nil => rfl
  | cons v F ih =>
    have hv : Apart w v := h v List.mem_cons_self
    rw [writeAll_cons, writeAll_cons, write_comm hv, ih fun u hu => h u (List.mem_cons_of_mem _ hu)]

/-- Lists of writes apart from each other commute. -/
theorem writeAll_comm {E F : List (GraphWrite N V K P)} (h : ∀ w ∈ E, ∀ v ∈ F, Apart w v)
    (g : PropertyGraph N V K P) : (g.writeAll E).writeAll F = (g.writeAll F).writeAll E := by
  induction E generalizing g with
  | nil => rfl
  | cons w E ih =>
    have hw : ∀ v ∈ F, Apart w v := h w List.mem_cons_self
    rw [writeAll_cons, ih fun u hu => h u (List.mem_cons_of_mem _ hu), writeAll_write_comm hw, writeAll_cons]

/-- **Blocks that are pairwise apart give one graph in every order.** -/
theorem writeAll_perm {ι : Type} {block : ι → List (GraphWrite N V K P)} {is js : List ι} (hperm : is.Perm js)
    (h : ∀ i ∈ is, ∀ j ∈ is, i ≠ j → ∀ w ∈ block i, ∀ v ∈ block j, Apart w v) (g : PropertyGraph N V K P) :
    is.foldl (fun g i => g.writeAll (block i)) g = js.foldl (fun g i => g.writeAll (block i)) g := by
  classical
  refine hperm.foldl_eq' (fun i hi j hj g => ?_) g
  by_cases heq : i = j
  · rw [heq]
  · exact writeAll_comm (h i hi j hj heq) g

end PropertyGraph
