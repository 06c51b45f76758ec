import Mathlib.Data.List.Induction
import Mathlib.Data.List.Nodup

/-!
# Items collected under their keys

What a loop `found[key(item)] = item` makes of a list: the values of a dict in the order its keys were first
set, each the last item of its key.

* `find_collect`: the item found under a key is the last one of that key;
* `nodup_collect`: a key is held once.
-/

namespace LastWins

variable {α κ : Type} [DecidableEq κ] (key : α → κ)

/-- Set an item under its key: in the place of the key, at the end where it is new. -/
def put (a : α) : List α → List α
  | [] => [a]
  | b :: found => if key b = key a then a :: found else b :: put a found

/-- The items of a list, one under each key. -/
def collect (items : List α) : List α := items.foldl (fun found a => put key a found) []

/-- The item under a key. -/
def under (k : κ) (items : List α) : Option α := items.find? fun a => key a = k

/-- The last item of a key. -/
def last (k : κ) (items : List α) : Option α := under key k items.reverse

variable {key} {a : α} {k : κ} {items found : List α}

theorem mem_of_under (h : under key k items = some a) : a ∈ items ∧ key a = k :=
  ⟨List.mem_of_find?_eq_some h, by simpa using List.find?_some h⟩

theorem under_of_mem (hnodup : (items.map key).Nodup) (h : a ∈ items) : under key (key a) items = some a := by
  induction items with
  | nil => cases h
  | cons b items ih =>
    rw [List.map_cons, List.nodup_cons] at hnodup
    rcases List.mem_cons.1 h with rfl | h
    · exact List.find?_cons_of_pos (by simp)
    · have hne : key b ≠ key a := by
        intro heq
        exact hnodup.1 (heq ▸ List.mem_map_of_mem h)
      unfold under
      rw [List.find?_cons_of_neg (by simpa using hne)]
      exact ih hnodup.2 h

theorem under_put : under key k (put key a found) = if key a = k then some a else under key k found := by
  induction found with
  | nil =>
    unfold put under
    split
    · rename_i h; exact List.find?_cons_of_pos (by simpa using h)
    · rename_i h; exact List.find?_cons_of_neg (by simpa using h)
  | cons b found ih =>
    unfold under at ih ⊢
    unfold put
    by_cases hb : key b = key a
    · rw [if_pos hb]
      by_cases ha : key a = k
      · rw [if_pos ha]; exact List.find?_cons_of_pos (by simpa using ha)
      · rw [if_neg ha, List.find?_cons_of_neg (by simpa using ha), List.find?_cons_of_neg (by simpa [hb] using ha)]
    · rw [if_neg hb]
      by_cases hk : key b = k
      · have ha : key a ≠ k := fun h => hb (hk.trans h.symm)
        rw [if_neg ha, List.find?_cons_of_pos (by simpa using hk), List.find?_cons_of_pos (by simpa using hk)]
      · rw [List.find?_cons_of_neg (by simpa using hk), List.find?_cons_of_neg (by simpa using hk)]
        exact ih

theorem mem_put (h : a ∈ put key b found) : a = b ∨ a ∈ found := by
  induction found with
  | nil => exact .inl (List.mem_singleton.1 h)
  | cons c found ih =>
    unfold put at h
    split at h
    · exact (List.mem_cons.1 h).imp_right (List.mem_cons_of_mem _)
    · rcases List.mem_cons.1 h with rfl | h
      · exact .inr (by simp)
      · exact (ih h).imp_right (List.mem_cons_of_mem _)

theorem nodup_put (h : (found.map key).Nodup) : ((put key a found).map key).Nodup := by
  induction found with
  | nil => simp [put]
  | cons b found ih =>
    rw [List.map_cons, List.nodup_cons] at h
    unfold put
    split
    · rename_i hb
      rw [List.map_cons, List.nodup_cons, ← hb]
      exact h
    · rename_i hb
      rw [List.map_cons, List.nodup_cons]
      refine ⟨fun hmem => ?_, ih h.2⟩
      obtain ⟨c, hc, heq⟩ := List.mem_map.1 hmem
      rcases mem_put hc with rfl | hc
      · exact hb heq.symm
      · exact h.1 (heq ▸ List.mem_map_of_mem hc)

theorem collect_concat : collect key (items ++ [a]) = put key a (collect key items) := by
  unfold collect
  rw [List.foldl_append]
  rfl

theorem last_concat : last key k (items ++ [a]) = if key a = k then some a else last key k items := by
  unfold last under
  rw [List.reverse_append, List.reverse_singleton, List.singleton_append]
  split
  · rename_i h; exact List.find?_cons_of_pos (by simpa using h)
  · rename_i h; exact List.find?_cons_of_neg (by simpa using h)

/-- **Under a key stands its last item.** -/
theorem under_collect : under key k (collect key items) = last key k items := by
  induction items using List.reverseRecOn with
  | nil => rfl
  | append_singleton items a ih => rw [collect_concat, under_put, last_concat, ih]

/-- **One item under a key.** -/
theorem nodup_collect : ((collect key items).map key).Nodup := by
  induction items using List.reverseRecOn with
  | nil => exact List.nodup_nil
  | append_singleton items a ih => rw [collect_concat]; exact nodup_put ih

theorem mem_collect : a ∈ collect key items ↔ last key (key a) items = some a := by
  rw [← under_collect]
  exact ⟨under_of_mem nodup_collect, fun h => (mem_of_under h).1⟩

theorem mem_of_last (h : last key k items = some a) : a ∈ items ∧ key a = k := by
  have := mem_of_under h
  exact ⟨List.mem_reverse.1 this.1, this.2⟩

theorem collect_eq_nil : collect key items = [] ↔ items = [] := by
  refine ⟨fun h => ?_, fun h => by rw [h]; rfl⟩
  cases items using List.reverseRecOn with
  | nil => rfl
  | append_singleton items a =>
    have hlast : last key (key a) (items ++ [a]) = some a := by rw [last_concat, if_pos rfl]
    have hmem := mem_collect.2 hlast
    rw [h] at hmem
    cases hmem

end LastWins
