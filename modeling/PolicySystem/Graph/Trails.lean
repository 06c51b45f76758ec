import Mathlib.Data.List.Nodup
import Mathlib.Data.List.Perm.Basic
import Mathlib.Logic.Relation

/-!
# Trails of a directed multigraph

The paths that take no edge twice, as a graph query enumerates them: edges are a list, and every occurrence is an edge.

* `trailEnds`: where the trails of at least one edge from a node end, once a trail;
* `trailEnds_reached`, `mem_trailEnds`, `trailEnds_nodup`: in a tree, each node once;
* `trailEnds_append`: edges that no trail gets to do not matter.
-/

namespace Trails

variable {N E : Type} (source target : E → N)

/-- There is an edge from `a` to `b`. -/
def Step (edges : List E) (a b : N) : Prop := ∃ e ∈ edges, source e = a ∧ target e = b

/-- The ends of the trails of one to `n` edges from `a`. -/
def trailEnds [DecidableEq N] [DecidableEq E] : ℕ → List E → N → List N
  | 0, _, _ => []
  | n + 1, edges, a =>
    edges.flatMap fun e => if source e = a then target e :: trailEnds n (edges.erase e) (target e) else []

variable {source target} {edges edges' : List E} {a b x : N} {n : ℕ}

theorem Step.mono (h : edges ⊆ edges') (hstep : Step source target edges a b) : Step source target edges' a b := by
  obtain ⟨e, he, hends⟩ := hstep
  exact ⟨e, h he, hends⟩

theorem target_of_reached (h : Relation.TransGen (Step source target edges) a x) : x ∈ edges.map target := by
  obtain ⟨c, -, e, he, -, ht⟩ := Relation.TransGen.tail'_iff.1 h
  exact List.mem_map.2 ⟨e, he, ht⟩

theorem edge_unique (hnodup : (edges.map target).Nodup) {e e' : E} (he : e ∈ edges) (he' : e' ∈ edges)
    (ht : target e = target e') : e = e' := List.inj_on_of_nodup_map hnodup he he' ht

section Erase

variable [DecidableEq E]

/-- Once an edge is gone its end is no target. -/
theorem target_not_mem_erase (hnodup : (edges.map target).Nodup) {e : E} (he : e ∈ edges) :
    target e ∉ (edges.erase e).map target := by
  have hperm : (edges.map target).Perm (target e :: (edges.erase e).map target) := (List.perm_cons_erase he).map target
  exact (List.nodup_cons.1 (hperm.nodup_iff.1 hnodup)).1

theorem nodup_erase (hnodup : (edges.map target).Nodup) (e : E) : ((edges.erase e).map target).Nodup :=
  hnodup.sublist (List.erase_sublist.map target)

/-- A path that starts past the root does without the edges of the root. -/
theorem reached_erase (hroot : a ∉ edges.map target) {e : E} (hs : source e = a) (hb : b ∈ edges.map target)
    (h : Relation.TransGen (Step source target edges) b x) : Relation.TransGen (Step source target (edges.erase e)) b x := by
  have hkeep : ∀ {c d : N}, c ∈ edges.map target → Step source target edges c d → Step source target (edges.erase e) c d := by
    rintro c d hc ⟨f, hf, hfs, hft⟩
    refine ⟨f, ?_, hfs, hft⟩
    refine (List.mem_erase_of_ne ?_).2 hf
    rintro rfl
    exact hroot (hs ▸ hfs ▸ hc)
  induction h with
  | single hstep => exact .single (hkeep hb hstep)
  | tail hpath hstep ih => exact ih.tail (hkeep (target_of_reached hpath) hstep)

end Erase

variable [DecidableEq N] [DecidableEq E]

theorem mem_trailEnds_succ : x ∈ trailEnds source target (n + 1) edges a ↔
    ∃ e ∈ edges, source e = a ∧ (x = target e ∨ x ∈ trailEnds source target n (edges.erase e) (target e)) := by
  rw [trailEnds, List.mem_flatMap]
  refine exists_congr fun e => and_congr_right fun _ => ?_
  by_cases hs : source e = a
  · rw [if_pos hs, List.mem_cons]
    exact ⟨fun h => ⟨hs, h⟩, fun h => h.2⟩
  · rw [if_neg hs]
    exact ⟨fun h => absurd h (List.not_mem_nil), fun h => absurd h.1 hs⟩

/-- A trail is a path. -/
theorem trailEnds_reached (h : x ∈ trailEnds source target n edges a) :
    Relation.TransGen (Step source target edges) a x := by
  induction n generalizing edges a with
  | zero => cases h
  | succ n ih =>
    obtain ⟨e, he, hs, hx⟩ := mem_trailEnds_succ.1 h
    have hstep : Step source target edges a (target e) := ⟨e, he, hs, rfl⟩
    rcases hx with rfl | hx
    · exact .single hstep
    · exact .head hstep (Relation.TransGen.mono (fun _ _ => Step.mono List.erase_subset) _ _ (ih hx))

/-- The order of the edges only changes the order of the trails. -/
theorem trailEnds_perm (h : edges.Perm edges') :
    (trailEnds source target n edges a).Perm (trailEnds source target n edges' a) := by
  induction n generalizing edges edges' a with
  | zero => exact .refl _
  | succ n ih =>
    rw [trailEnds, trailEnds]
    refine (h.flatMap_right _).trans (List.Perm.flatMap_left _ fun e _ => ?_)
    split
    · exact (ih (h.erase e)).cons _
    · exact .refl _

/-- Edges that no trail gets to do not matter. -/
theorem trailEnds_append (h : ∀ e ∈ edges', source e ≠ a ∧ source e ∉ edges.map target) :
    trailEnds source target n (edges ++ edges') a = trailEnds source target n edges a := by
  induction n generalizing edges a with
  | zero => rfl
  | succ n ih =>
    rw [trailEnds, trailEnds, List.flatMap_append]
    have hnone : (edges'.flatMap fun e =>
        if source e = a then target e :: trailEnds source target n ((edges ++ edges').erase e) (target e) else []) = [] := by
      rw [List.flatMap_eq_nil_iff]
      intro e he
      exact if_neg (h e he).1
    rw [hnone, List.append_nil]
    refine List.flatMap_congr fun e he => ?_
    split
    · rw [List.erase_append_left _ he, ih]
      intro e' he'
      refine ⟨fun heq => (h e' he').2 (heq ▸ List.mem_map_of_mem he), fun hin => (h e' he').2 ?_⟩
      exact List.map_subset _ List.erase_subset hin
    · rfl

/-! ## Trees -/

section Tree

variable (hnodup : (edges.map target).Nodup)

include hnodup

/-- **Every node reached from the root is the end of a trail.** -/
theorem mem_trailEnds (hroot : a ∉ edges.map target) (hlength : edges.length ≤ n)
    (h : Relation.TransGen (Step source target edges) a x) : x ∈ trailEnds source target n edges a := by
  induction n generalizing edges a with
  | zero =>
    obtain ⟨b, ⟨e, he, -⟩, -⟩ := Relation.TransGen.head'_iff.1 h
    rw [List.length_eq_zero_iff.1 (Nat.le_zero.1 hlength)] at he
    cases he
  | succ n ih =>
    obtain ⟨b, ⟨e, he, hs, rfl⟩, hrest⟩ := Relation.TransGen.head'_iff.1 h
    refine mem_trailEnds_succ.2 ⟨e, he, hs, ?_⟩
    rcases Relation.reflTransGen_iff_eq_or_transGen.1 hrest with heq | hpath
    · exact .inl heq
    · right
      have hshort : (edges.erase e).length ≤ n := by
        rw [List.length_erase_of_mem he]
        omega
      exact ih (nodup_erase hnodup e) (target_not_mem_erase hnodup he) hshort
        (reached_erase hroot hs (List.mem_map_of_mem he) hpath)

/-- **No node is the end of two trails.** -/
theorem trailEnds_nodup (hroot : a ∉ edges.map target) : (trailEnds source target n edges a).Nodup := by
  induction n generalizing edges a with
  | zero => exact List.nodup_nil
  | succ n ih =>
    rw [trailEnds, List.nodup_flatMap]
    refine ⟨fun e he => ?_, ?_⟩
    · split
      · refine List.nodup_cons.2 ⟨fun hin => ?_, ih (nodup_erase hnodup e) (target_not_mem_erase hnodup he)⟩
        exact target_not_mem_erase hnodup he (target_of_reached (trailEnds_reached hin))
      · exact List.nodup_nil
    · have hedges : edges.Nodup := hnodup.of_map
      refine (List.pairwise_iff_forall_sublist.2 fun {e e'} hsub => ?_)
      have hne : e ≠ e' := fun heq => by
        rw [heq] at hsub
        exact absurd (hedges.sublist hsub) (by simp)
      have he : e ∈ edges := hsub.subset (by simp)
      have he' : e' ∈ edges := hsub.subset (by simp)
      show List.Disjoint _ _
      intro x hx hx'
      -- what lies behind an edge of the root
      have hbehind : ∀ {f : E}, f ∈ edges →
          (x ∈ if source f = a then target f :: trailEnds source target n (edges.erase f) (target f) else []) →
          source f = a ∧ Relation.ReflTransGen (Step source target edges) (target f) x := by
        intro f hf hin
        split at hin
        · rename_i hs
          refine ⟨hs, ?_⟩
          rcases List.mem_cons.1 hin with rfl | hin
          · exact .refl
          · exact (Relation.TransGen.mono (fun _ _ => Step.mono List.erase_subset) _ _ (trailEnds_reached hin)).to_reflTransGen
        · cases hin
      obtain ⟨hs, hpath⟩ := hbehind he hx
      obtain ⟨hs', hpath'⟩ := hbehind he' hx'
      have hunique : Relator.RightUnique (Function.swap (Step source target edges)) := by
        rintro c d d' ⟨f, hf, rfl, hft⟩ ⟨f', hf', rfl, hft'⟩
        rw [edge_unique hnodup hf hf' (hft.trans hft'.symm)]
      -- two trails to one node meet at the later of their first ends, whose edge comes from the root
      have hmeet : ∀ {f f' : E}, f ∈ edges → f' ∈ edges → source f' = a → f ≠ f' →
          ¬ Relation.ReflTransGen (Step source target edges) (target f) (target f') := by
        intro f f' hf hf' hfs' hff hreach
        rcases Relation.reflTransGen_iff_eq_or_transGen.1 hreach with heq | hreach
        · exact hff (edge_unique hnodup hf hf' heq.symm)
        · obtain ⟨c, hc, g, hg, rfl, hgt⟩ := Relation.TransGen.tail'_iff.1 hreach
          rw [edge_unique hnodup hg hf' hgt, hfs'] at hc
          rcases Relation.reflTransGen_iff_eq_or_transGen.1 hc with heq | hc
          · exact hroot (heq ▸ List.mem_map_of_mem hf)
          · exact hroot (target_of_reached hc)
      rcases Relation.ReflTransGen.total_of_right_unique hunique (Relation.reflTransGen_swap.2 hpath)
        (Relation.reflTransGen_swap.2 hpath') with hc | hc
      · exact hmeet he' he hs (Ne.symm hne) (Relation.reflTransGen_swap.1 hc)
      · exact hmeet he he' hs' hne (Relation.reflTransGen_swap.1 hc)

/-- **In a tree the trails from the root end in each node once.** -/
theorem trailEnds_tree (hroot : a ∉ edges.map target) (hlength : edges.length ≤ n)
    (hreached : ∀ e ∈ edges, Relation.TransGen (Step source target edges) a (target e)) :
    (trailEnds source target n edges a).Perm (edges.map target) := by
  refine (List.perm_ext_iff_of_nodup (trailEnds_nodup hnodup hroot) hnodup).2 fun x => ⟨fun hx => ?_, fun hx => ?_⟩
  · exact target_of_reached (trailEnds_reached hx)
  · obtain ⟨e, he, rfl⟩ := List.mem_map.1 hx
    exact mem_trailEnds hnodup hroot hlength (hreached e he)

end Tree

end Trails
