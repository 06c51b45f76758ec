import Mathlib

/-!
# Sorting by a key

A stable sort by a key that need not tell the elements apart.

* `filter_sortBy`: the elements of one key stay in their order;
* `sortBy_canonical_iff`: the sorted list depends only on the multiset exactly when the key tells the elements apart.
-/

namespace StableSort

variable {α κ : Type} [LinearOrder κ] (key : α → κ)

/-- The comparison by the key. -/
def leKey (a b : α) : Bool := key a ≤ key b

/-- `sorted(l, key=key)`. -/
def sortBy (l : List α) : List α := l.mergeSort (leKey key)

/-- The key tells the elements of a list apart. -/
def Untied (l : List α) : Prop := ∀ a ∈ l, ∀ b ∈ l, key a = key b → a = b

variable {key} {l l' : List α}

theorem sortBy_perm (l : List α) : (sortBy key l).Perm l := List.mergeSort_perm l _

theorem leKey_iff {a b : α} : leKey key a b = true ↔ key a ≤ key b := decide_eq_true_iff

theorem leKey_trans (a b c : α) (hab : leKey key a b = true) (hbc : leKey key b c = true) : leKey key a c = true :=
  leKey_iff.2 ((leKey_iff.1 hab).trans (leKey_iff.1 hbc))

theorem leKey_total (a b : α) : (leKey key a b || leKey key b a) = true := by
  rw [Bool.or_eq_true, leKey_iff, leKey_iff]
  exact le_total _ _

theorem sortBy_pairwise (l : List α) : (sortBy key l).Pairwise fun a b => key a ≤ key b :=
  (List.pairwise_mergeSort leKey_trans leKey_total l).imp leKey_iff.1

theorem sortBy_of_pairwise (h : l.Pairwise fun a b => key a ≤ key b) : sortBy key l = l :=
  List.mergeSort_of_pairwise (h.imp leKey_iff.2)

/-- **Stability**: the elements of one key stay in their order. -/
theorem filter_sortBy (key : α → κ) (k : κ) (l : List α) :
    (sortBy key l).filter (key · = k) = l.filter (key · = k) := by
  have hpairwise : (l.filter (key · = k)).Pairwise fun a b => leKey key a b = true := by
    refine List.pairwise_of_forall_mem_list fun a ha b hb => ?_
    have ha' : key a = k := by simpa using (List.mem_filter.1 ha).2
    have hb' : key b = k := by simpa using (List.mem_filter.1 hb).2
    rw [leKey_iff, ha', hb']
  have hsublist : (l.filter (key · = k)).Sublist (sortBy key l) :=
    List.sublist_mergeSort leKey_trans leKey_total hpairwise List.filter_sublist
  have hfilter : (l.filter (key · = k)).Sublist ((sortBy key l).filter (key · = k)) := by
    have := hsublist.filter (key · = k)
    rwa [List.filter_filter, funext fun a => Bool.and_self _] at this
  exact (hfilter.eq_of_length ((sortBy_perm l).filter _).length_eq.symm).symm

/-- Where the key tells the elements apart, the sorted list depends on the multiset only. -/
theorem Untied.sortBy_eq (h : Untied key l) (hperm : l.Perm l') : sortBy key l' = sortBy key l := by
  refine List.Perm.eq_of_pairwise ?_ (sortBy_pairwise l') (sortBy_pairwise l)
    ((sortBy_perm l').trans (hperm.symm.trans (sortBy_perm l).symm))
  intro a b ha hb hab hba
  exact h a (hperm.mem_iff.2 ((sortBy_perm l').mem_iff.1 ha)) b ((sortBy_perm l).mem_iff.1 hb) (le_antisymm hab hba)

/-- What stands in the order of its keys already is what sorting any order of it gives. -/
theorem sortBy_of_perm (h : l.Pairwise fun a b => key a < key b) (hperm : l'.Perm l) : sortBy key l' = l := by
  have hnodup : (l.map key).Nodup := List.pairwise_map.2 (h.imp fun hlt => hlt.ne)
  have huntied : Untied key l := fun a ha b hb hkey => List.inj_on_of_nodup_map hnodup ha hb hkey
  rw [huntied.sortBy_eq hperm.symm, sortBy_of_pairwise (h.imp le_of_lt)]

/-- Two elements of one key stand in the sorted list as they stood in the list. -/
theorem eq_of_swap {a b : α} {rest : List α} (hkey : key a = key b)
    (h : sortBy key (a :: b :: rest) = sortBy key (b :: a :: rest)) : a = b := by
  have hfilter := filter_sortBy key (key b) (a :: b :: rest)
  rw [h, filter_sortBy] at hfilter
  simp only [List.filter_cons, hkey, decide_true, if_true] at hfilter
  exact (List.cons.inj hfilter).1.symm

/-- **The sorted list depends only on the multiset** exactly when the key tells the elements apart. -/
theorem sortBy_canonical_iff : (∀ l', l.Perm l' → sortBy key l' = sortBy key l) ↔ Untied key l := by
  constructor
  · intro h a ha b hb hkey
    by_contra hne
    obtain ⟨rest, hperm⟩ : ∃ rest, l.Perm (a :: b :: rest) := by
      classical
      have hb' : b ∈ l.erase a := (List.mem_erase_of_ne (Ne.symm hne)).2 hb
      exact ⟨_, (List.perm_cons_erase ha).trans ((List.perm_cons_erase hb').cons a)⟩
    have hswap : l.Perm (b :: a :: rest) := hperm.trans (List.Perm.swap b a rest)
    exact hne (eq_of_swap hkey ((h _ hperm).trans (h _ hswap).symm))
  · exact fun h l' hperm => h.sortBy_eq hperm

end StableSort
