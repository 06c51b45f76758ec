import PolicySystem.Graph.Reapply

/-!
# Rebuilding from a list, pass by pass

A list of steps is worked through from its start. Every so often the steps done so far go on record; a pass that
breaks off leaves any of the later steps done as well, and the next pass starts again from the record.

* `Rebuilt`: what any number of such passes may leave;
* `NeedsMet`: every write of a list finds the nodes it needs at its turn;
* `rebuilt`: **doing the steps that are not on record leaves what doing all of them once leaves.**
-/

set_option linter.unusedSectionVars false

open Std (ExtTreeMap TransOrd LawfulEqOrd)

/-- **What passes over a list leave**, with what is on record and what is not. -/
inductive Rebuilt {σ α : Type} (apply : σ → α → σ) (s : σ) (all : List α) : List α → List α → σ → Prop
  | start : Rebuilt apply s all [] all s
  | broken {recorded rest some : List α} {c : σ} : Rebuilt apply s all recorded rest c → (∀ w ∈ some, w ∈ rest) →
      Rebuilt apply s all recorded rest (some.foldl apply c)
  | record {recorded next rest : List α} {c : σ} : Rebuilt apply s all recorded (next ++ rest) c →
      Rebuilt apply s all (recorded ++ next) rest (next.foldl apply c)

theorem Rebuilt.split {σ α : Type} {apply : σ → α → σ} {s c : σ} {all recorded rest : List α}
    (h : Rebuilt apply s all recorded rest c) : recorded ++ rest = all := by
  induction h with
  | start => rfl
  | broken _ _ ih => exact ih
  | record _ ih => rw [List.append_assoc]; exact ih

namespace PropertyGraph

open Incidence GraphWrite

variable {N V K P : Type} [Ord N] [TransOrd N] [LawfulEqOrd N] [Incidence K N] [DecidableEq N] [DecidableEq K]
variable [Inhabited V] [Inhabited P]

section Needs

variable {g c : PropertyGraph N V K P} {E F : List (GraphWrite N V K P)} {n : N}

/-- **Every write of the list finds the nodes it needs** at its turn. -/
def NeedsMet (g : PropertyGraph N V K P) (E : List (GraphWrite N V K P)) : Prop :=
  ∀ E₁ w E₂, E = E₁ ++ w :: E₂ → ∀ n, Needs w n → n ∈ (g.writeAll E₁).nodes

theorem needsMet_nil : NeedsMet g [] := by
  intro E₁ w E₂ hE
  simp at hE

theorem needsMet_cons {w : GraphWrite N V K P} :
    NeedsMet g (w :: E) ↔ (∀ n, Needs w n → n ∈ g.nodes) ∧ NeedsMet (g.write w) E := by
  constructor
  · intro h
    refine ⟨h [] w E rfl, fun E₁ v E₂ hE n hn => ?_⟩
    exact h (w :: E₁) v E₂ (by rw [hE, List.cons_append]) n hn
  · rintro ⟨hw, hrest⟩ E₁ v E₂ hsplit n hn
    cases E₁ with
    | nil =>
      obtain ⟨rfl, -⟩ := List.cons.inj hsplit
      exact hw n hn
    | cons u E₁ =>
      obtain ⟨rfl, hE⟩ := List.cons.inj hsplit
      exact hrest E₁ v E₂ hE n hn

theorem needsMet_append : NeedsMet g (E ++ F) ↔ NeedsMet g E ∧ NeedsMet (g.writeAll E) F := by
  constructor
  · intro h
    refine ⟨fun E₁ w E₂ hE => h E₁ w (E₂ ++ F) (by rw [hE]; simp), fun F₁ w F₂ hF n hn => ?_⟩
    have hlater := h (E ++ F₁) w F₂ (by rw [hF]; simp) n hn
    rwa [writeAll_append] at hlater
  · rintro ⟨hfirst, hthen⟩ E₁ w E₂ hsplit n hn
    rcases List.append_eq_append_iff.1 hsplit with ⟨as, hE₁, hF⟩ | ⟨bs, hE, hbs⟩
    · rw [hE₁, writeAll_append]
      exact hthen as w E₂ hF n hn
    · cases bs with
      | nil =>
        rw [List.append_nil] at hE
        have hlater := hthen [] w E₂ hbs.symm n hn
        rwa [hE] at hlater
      | cons b bs =>
        obtain ⟨rfl, -⟩ := List.cons.inj hbs
        exact hfirst E₁ w bs hE n hn

/-- A node is there after a list when it was before and is not deleted, or is created and not deleted. -/
theorem mem_writeAll_mono (hdel : drop n ∉ E) (hin : n ∈ g.nodes → n ∈ c.nodes) (h : n ∈ (g.writeAll E).nodes) :
    n ∈ (c.writeAll E).nodes := by
  by_cases hc : Creates E n
  · exact (mem_writeAll_decided (.inl hc) g c).1 h
  · have hbefore : n ∈ g.nodes := by
      by_contra hout
      exact notMem_writeAll hc hout h
    exact mem_writeAll_of_mem hdel (hin hbefore)

end Needs

variable {g c : PropertyGraph N V K P} {E recorded rest : List (GraphWrite N V K P)} {n : N}

/-- A node that the record leaves, and that nothing off the record deletes, is there whatever passes broke off. -/
theorem nodes_of_rebuilt (h : Rebuilt write g E recorded rest c) (hdel : drop n ∉ rest)
    (hn : n ∈ (g.writeAll recorded).nodes) : n ∈ c.nodes := by
  induction h with
  | start => exact hn
  | broken _ hsome ih => exact mem_writeAll_of_mem (fun hd => hdel (hsome _ hd)) (ih hdel hn)
  | @record recorded next rest c _ ih =>
    by_cases hnext : drop n ∈ next
    · -- the recorded steps decide by themselves
      rw [writeAll_append] at hn
      exact (mem_writeAll_decided (.inr hnext) _ c).1 hn
    · have hboth : drop n ∉ next ++ rest := by
        rw [List.mem_append, not_or]
        exact ⟨hnext, hdel⟩
      rw [writeAll_append] at hn
      exact mem_writeAll_mono hnext (ih hboth) hn

variable {ι β κ γ : Type} [Readings V ι β] [Readings P κ γ]

/-- What is not on record is grounded wherever passes left the graph. -/
theorem grounded_of_rebuilt (h : Rebuilt write g E recorded rest c) (hmet : NeedsMet g E) : Grounded c rest := by
  intro E₁ w E₂ hE n hn
  by_cases hdel : drop n ∈ rest
  · exact .inr (.inr (.inl hdel))
  by_cases hc : Creates E₁ n
  · exact .inr (.inl hc)
  have hall : E = (recorded ++ E₁) ++ w :: E₂ := by rw [← h.split, hE, List.append_assoc]
  have hturn := hmet _ _ _ hall n hn
  have hrecord : n ∈ (g.writeAll recorded).nodes := by
    by_contra hout
    rw [writeAll_append] at hturn
    exact notMem_writeAll hc hout hturn
  exact .inl (nodes_of_rebuilt h hdel hrecord)

/-- **Rebuilding.** From wherever passes broke off, the steps that are not on record leave what the whole list
leaves. -/
theorem rebuilt [DecidableEq P] (hE : ∀ w ∈ E, Overwriting w) (hmet : NeedsMet g E)
    (h : Rebuilt write g E recorded rest c) :
    c.writeAll rest = g.writeAll E := by
  induction h with
  | start => rfl
  | @broken recorded rest some c hpass hsome ih =>
    have hrest : ∀ w ∈ rest, Overwriting w := by
      intro w hw
      exact hE w (hpass.split ▸ List.mem_append_right recorded hw)
    have habsorb : (c.writeAll some).writeAll rest = c.writeAll rest :=
      reapply hrest hsome (grounded_of_rebuilt hpass hmet)
    exact habsorb.trans ih
  | @record recorded next rest c _ ih =>
    have happend : (c.writeAll next).writeAll rest = c.writeAll (next ++ rest) := (writeAll_append c next rest).symm
    exact happend.trans ih

end PropertyGraph
