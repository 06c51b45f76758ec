import Mathlib.Data.List.Count
import PolicySystem.Dict.LastWins

/-!
# Items kept first under their keys

What a loop that skips an item whose key it has met makes of a list: the first item of each key, in order.
Occurrences of one key are numbered in order.

* `under_collect`: the item kept under a key is the first one of that key;
* `nodup_collect`: a key is kept once;
* `mem_numbered`: a key takes the numbers from one to its count;
* `nodup_numbered`: no key takes a number twice.
-/

namespace FirstWins

open LastWins (under)

variable {α κ : Type} [DecidableEq κ] (key : α → κ)

/-- Keep an item whose key is new. -/
def keep (kept : List α) (a : α) : List α := if key a ∈ kept.map key then kept else kept ++ [a]

/-- The first item of each key. -/
def collect (items : List α) : List α := items.foldl (keep key) []

variable {key} {a : α} {k : κ} {items kept : List α}

theorem under_eq_none : under key k kept = none ↔ k ∉ kept.map key := by
  unfold under
  rw [List.find?_eq_none, List.mem_map]
  constructor
  · rintro h ⟨b, hb, heq⟩
    exact h b hb (decide_eq_true heq)
  · intro h b hb heq
    exact h ⟨b, hb, of_decide_eq_true heq⟩

theorem under_append {more : List α} : under key k (kept ++ more) = (under key k kept).or (under key k more) := by
  unfold under
  rw [List.find?_append]

theorem under_keep : under key k (keep key kept a) = under key k (kept ++ [a]) := by
  unfold keep
  split
  · rename_i hmem
    rw [under_append]
    by_cases hk : key a = k
    · subst hk
      obtain ⟨b, hb⟩ := Option.ne_none_iff_exists'.1 fun hnone => under_eq_none.1 hnone hmem
      rw [hb]
      exact (Option.some_or ..).symm
    · have hnone : under key k [a] = none := by
        rw [under_eq_none]
        simpa using fun h => hk h.symm
      rw [hnone]
      exact (Option.or_none ..).symm
  · exact rfl

theorem collect_concat : collect key (items ++ [a]) = keep key (collect key items) a := by
  unfold collect
  rw [List.foldl_append]
  rfl

/-- **Under a key stands its first item.** -/
theorem under_collect : under key k (collect key items) = under key k items := by
  induction items using List.reverseRecOn with
  | nil => rfl
  | append_singleton items a ih => rw [collect_concat, under_keep, under_append, under_append, ih]

theorem mem_keys_collect : k ∈ (collect key items).map key ↔ k ∈ items.map key := by
  have h : ∀ l : List α, k ∈ l.map key ↔ under key k l ≠ none := by
    intro l
    rw [Ne, under_eq_none, not_not]
  rw [h, h, under_collect]

theorem nodup_keep (h : (kept.map key).Nodup) : ((keep key kept a).map key).Nodup := by
  unfold keep
  split
  · exact h
  · rename_i hnew
    rw [List.map_append, List.map_singleton]
    exact List.nodup_append.2 ⟨h, List.nodup_singleton _, fun x hx y hy heq =>
      hnew (List.mem_singleton.1 hy ▸ heq ▸ hx)⟩

/-- **One item under a key.** -/
theorem nodup_collect : ((collect key items).map key).Nodup := by
  induction items using List.reverseRecOn with
  | nil => exact List.nodup_nil
  | append_singleton items a ih => rw [collect_concat]; exact nodup_keep ih

theorem mem_collect : a ∈ collect key items ↔ under key (key a) items = some a := by
  rw [← under_collect]
  exact ⟨LastWins.under_of_mem nodup_collect, fun h => (LastWins.mem_of_under h).1⟩

theorem mem_of_mem_collect (h : a ∈ collect key items) : a ∈ items := (LastWins.mem_of_under (mem_collect.1 h)).1

/-- Each item's key is kept, by the first item of that key. -/
theorem exists_first (h : a ∈ items) : ∃ b ∈ collect key items, key b = key a := by
  have hkey : key a ∈ (collect key items).map key := mem_keys_collect.2 (List.mem_map_of_mem h)
  obtain ⟨b, hb, heq⟩ := List.mem_map.1 hkey
  exact ⟨b, hb, heq⟩

theorem mem_collect_id {keys : List κ} : k ∈ collect id keys ↔ k ∈ keys := by
  have hkeys : k ∈ (collect id keys).map id ↔ k ∈ keys.map id := mem_keys_collect
  rwa [List.map_id, List.map_id] at hkeys

theorem nodup_collect_id {keys : List κ} : (collect id keys).Nodup := by
  have hnodup : ((collect id keys).map id).Nodup := nodup_collect
  rwa [List.map_id] at hnodup

/-! ## Occurrences -/

/-- Number an occurrence: one more than those before it. -/
def number (done : List (κ × ℕ)) (k : κ) : List (κ × ℕ) := done ++ [(k, (done.map Prod.fst).count k + 1)]

/-- The keys, each with the number of its occurrence. -/
def numbered (keys : List κ) : List (κ × ℕ) := keys.foldl number []

variable {keys : List κ} {n : ℕ}

theorem numbered_concat : numbered (keys ++ [k]) = number (numbered keys) k := by
  unfold numbered
  rw [List.foldl_append]
  rfl

theorem fst_numbered : (numbered keys).map Prod.fst = keys := by
  induction keys using List.reverseRecOn with
  | nil => rfl
  | append_singleton keys k ih => rw [numbered_concat, number, List.map_append, ih]; rfl

theorem numbered_concat' : numbered (keys ++ [k]) = numbered keys ++ [(k, keys.count k + 1)] := by
  rw [numbered_concat, number, fst_numbered]

/-- **A key takes the numbers from one to its count.** -/
theorem mem_numbered : (k, n) ∈ numbered keys ↔ 1 ≤ n ∧ n ≤ keys.count k := by
  induction keys using List.reverseRecOn with
  | nil =>
    constructor
    · intro h; cases h
    · intro h
      rw [List.count_nil] at h
      omega
  | append_singleton keys j ih =>
    rw [numbered_concat', List.mem_append, ih, List.mem_singleton, Prod.mk.injEq, List.count_append,
      List.count_singleton]
    by_cases hj : j = k
    · subst hj
      simp only [beq_self_eq_true, if_true, true_and]
      omega
    · have hk : k ≠ j := fun h => hj h.symm
      simp only [beq_eq_false_iff_ne.2 hj, Bool.false_eq_true, if_false, hk, false_and, or_false, Nat.add_zero]

/-- **No key takes a number twice.** -/
theorem nodup_numbered : (numbered keys).Nodup := by
  induction keys using List.reverseRecOn with
  | nil => exact List.nodup_nil
  | append_singleton keys j ih =>
    rw [numbered_concat']
    refine List.nodup_append.2 ⟨ih, List.nodup_singleton _, fun x hx y hy heq => ?_⟩
    obtain rfl := List.mem_singleton.1 hy
    subst heq
    have hle := (mem_numbered.1 hx).2
    omega

end FirstWins
