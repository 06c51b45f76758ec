import PolicySystem.Dict.FirstWins

/-!
# Lists collected under their keys

A dict of lists, each item appended to the list of its key, in insertion order.

* `grouped_eq`: the keys stand in the order of their first items, each with its items in their order.
-/

namespace Grouped

variable {κ α : Type} [DecidableEq κ]

/-- `groups[k].append(a)`, on a dict whose missing keys have an empty list. -/
def append (k : κ) (a : α) : List (κ × List α) → List (κ × List α)
  | [] => [(k, [a])]
  | (key, items) :: rest => if key = k then (key, items ++ [a]) :: rest else (key, items) :: append k a rest

/-- The items under their keys. -/
def grouped (key : α → κ) (items : List α) : List (κ × List α) :=
  items.foldl (fun groups a => append (key a) a groups) []

variable {key : α → κ} {items : List α} {k : κ} {a : α}

theorem grouped_concat : grouped key (items ++ [a]) = append (key a) a (grouped key items) := by
  unfold grouped
  rw [List.foldl_append, List.foldl_cons, List.foldl_nil]

/-- An item appended to what a list of keys holds, where the key is one of them. -/
theorem append_of_mem {held : κ → List α} {keys : List κ} (hnodup : keys.Nodup) (hk : k ∈ keys) :
    append k a (keys.map fun key => (key, held key)) =
      keys.map fun key => (key, if key = k then held key ++ [a] else held key) := by
  induction keys with
  | nil => exact absurd hk List.not_mem_nil
  | cons key keys ih =>
    rw [List.nodup_cons] at hnodup
    simp only [List.map_cons, append]
    by_cases heq : key = k
    · rw [if_pos heq, if_pos heq]
      refine congrArg _ (List.map_congr_left fun other hother => ?_)
      have hne : other ≠ k := by
        intro h
        rw [heq, ← h] at hnodup
        exact hnodup.1 hother
      rw [if_neg hne]
    · rw [if_neg heq, if_neg heq, ih hnodup.2 ((List.mem_cons.1 hk).resolve_left fun h => heq h.symm)]

theorem append_of_not_mem {groups : List (κ × List α)} (hk : k ∉ groups.map Prod.fst) :
    append k a groups = groups ++ [(k, [a])] := by
  induction groups with
  | nil => rfl
  | cons group groups ih =>
    rw [List.map_cons, List.mem_cons, not_or] at hk
    obtain ⟨key, held⟩ := group
    have hne : key ≠ k := fun h => hk.1 h.symm
    rw [append, if_neg hne, ih hk.2, List.cons_append]

/-- Appending goes through a function of the items. -/
theorem map_append {β : Type} {value : α → β} (groups : List (κ × List α)) :
    append k (value a) (groups.map fun group => (group.1, group.2.map value)) =
      (append k a groups).map fun group => (group.1, group.2.map value) := by
  induction groups with
  | nil => rfl
  | cons group groups ih =>
    simp only [List.map_cons, append]
    split
    · rw [List.map_cons, List.map_append, List.map_singleton]
    · rw [List.map_cons, ih]

/-- **Each key with its items**, in the order of the first items. -/
theorem grouped_eq (key : α → κ) (items : List α) :
    grouped key items =
      (FirstWins.collect id (items.map key)).map fun k => (k, items.filter fun a => key a = k) := by
  induction items using List.reverseRecOn with
  | nil => rfl
  | append_singleton items a ih =>
    rw [grouped_concat, ih, List.map_append, List.map_singleton, FirstWins.collect_concat]
    unfold FirstWins.keep
    simp only [List.map_id, id]
    by_cases hmem : key a ∈ FirstWins.collect id (items.map key)
    · rw [if_pos hmem, append_of_mem _ hmem]
      · refine List.map_congr_left fun k _ => ?_
        by_cases heq : k = key a
        · simp [heq]
        · simp [heq, Ne.symm heq]
      · exact FirstWins.nodup_collect_id
    · rw [if_neg hmem, append_of_not_mem, List.map_append, List.map_singleton]
      · have hnone : items.filter (fun b => decide (key b = key a)) = [] := by
          refine List.filter_eq_nil_iff.2 fun b hb => ?_
          rw [decide_eq_true_eq]
          exact fun h => hmem (FirstWins.mem_collect_id.2 (h ▸ List.mem_map_of_mem hb))
        congr 1
        · refine List.map_congr_left fun k hk => ?_
          have hne : key a ≠ k := fun h => hmem (h ▸ hk)
          simp [hne]
        · simp [hnone]
      · rw [List.map_map]
        simpa using hmem

theorem mem_grouped {c : List α} : (k, c) ∈ grouped key items ↔
    k ∈ items.map key ∧ c = items.filter fun a => key a = k := by
  rw [grouped_eq, List.mem_map]
  constructor
  · rintro ⟨_, hmem, heq⟩
    obtain ⟨rfl, rfl⟩ := Prod.mk.inj heq
    exact ⟨FirstWins.mem_collect_id.1 hmem, rfl⟩
  · rintro ⟨hmem, rfl⟩
    exact ⟨k, FirstWins.mem_collect_id.2 hmem, rfl⟩

end Grouped
