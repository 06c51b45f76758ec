import Mathlib

/-!
# Keyset paging

A list of rows is read page by page, newest first; each page starts below the key of the last row shown. Rows may be added
between the pages.

* `page`: one page, with the bound of the next;
* `follow`: the pages one after the other;
* `follow_pages`: following the pages ends, and shows every row that was there at the start once, in order.
-/

namespace Keyset

variable {α κ : Type} [LinearOrder κ] (key : α → κ)

/-- The rows below a bound, newest first. -/
def selected (rows : List α) (bound : Option κ) : List α :=
  (rows.filter fun x => ∀ b ∈ bound, key x < b).mergeSort fun a b => key b ≤ key a

/-- A page and the bound of the next: one row more is read, to learn whether there is one. -/
def page (size : ℕ) (rows : List α) (bound : Option κ) : List α × Option κ :=
  let fetched := (selected key rows bound).take (size + 1)
  (fetched.take size, if size < fetched.length then (fetched.take size).getLast?.map key else none)

/-- The pages from a bound on, the table being what it is at each of them; `none` where the fuel does not suffice. -/
def follow (size : ℕ) (table : ℕ → List α) : ℕ → ℕ → Option κ → Option (List (List α))
  | 0, _, _ => none
  | fuel + 1, n, bound =>
    let p := page key size (table n) bound
    match p.2 with
    | none => some [p.1]
    | some next => (follow size table fuel (n + 1) (some next)).map (p.1 :: ·)

variable {key} {size : ℕ} {rows : List α} {bound : Option κ} {x : α} {table : ℕ → List α}

/-- Rows under distinct keys, and none is taken away. -/
structure Grows (key : α → κ) (table : ℕ → List α) : Prop where
  distinct : ∀ n, ((table n).map key).Nodup
  kept : ∀ n, ∀ x ∈ table n, x ∈ table (n + 1)

/-- A row below a bound. -/
def Below (key : α → κ) (bound : Option κ) (x : α) : Prop := ∀ b ∈ bound, key x < b

theorem mem_selected : x ∈ selected key rows bound ↔ x ∈ rows ∧ Below key bound x := by
  unfold selected Below
  rw [(List.mergeSort_perm _ _).mem_iff, List.mem_filter, decide_eq_true_eq]

theorem selected_sorted (h : (rows.map key).Nodup) : (selected key rows bound).Pairwise fun a b => key b < key a := by
  have hsorted : (selected key rows bound).Pairwise fun a b => key b ≤ key a := by
    have hpairwise := @List.pairwise_mergeSort α (fun a b => decide (key b ≤ key a))
      (fun a b c hab hbc => by simp only [decide_eq_true_eq] at *; exact hbc.trans hab)
      (fun a b => by simpa using le_total (key b) (key a)) (rows.filter fun x => ∀ b ∈ bound, key x < b)
    exact hpairwise.imp fun h => by simpa using h
  have hnodup : ((selected key rows bound).map key).Nodup := by
    refine (((List.mergeSort_perm _ _).map key).nodup_iff).2 ?_
    exact (List.filter_sublist.map key).nodup h
  refine (hsorted.and (List.pairwise_map.1 hnodup)).imp fun h => ?_
  exact lt_of_le_of_ne h.1 h.2.symm

/-- A page that is not the last one. -/
theorem page_more (h : (rows.map key).Nodup) {next : κ} (hpage : (page key size rows bound).2 = some next) :
    ∃ shown rest last, selected key rows bound = shown ++ rest ∧ (page key size rows bound).1 = shown ∧ last ∈ shown ∧
      key last = next ∧ (∀ x ∈ shown, next ≤ key x) ∧ ∀ x ∈ rest, key x < next := by
  unfold page at hpage ⊢
  simp only at hpage ⊢
  split at hpage
  · obtain ⟨last, hlast, rfl⟩ := Option.map_eq_some_iff.1 hpage
    rw [List.take_take, Nat.min_eq_left (Nat.le_succ size)] at hlast ⊢
    have hmem : last ∈ (selected key rows bound).take size := List.mem_of_getLast? hlast
    have hsorted : (selected key rows bound).Pairwise fun a b => key b < key a := selected_sorted h
    rw [← List.take_append_drop size (selected key rows bound), List.pairwise_append] at hsorted
    refine ⟨_, _, last, (List.take_append_drop size _).symm, rfl, hmem, rfl, ?_, fun x hx => hsorted.2.2 last hmem x hx⟩
    obtain ⟨init, hinit⟩ := List.getLast?_eq_some_iff.1 hlast
    rw [hinit] at hsorted ⊢
    intro x hx
    rcases List.mem_append.1 hx with hx | hx
    · exact ((List.pairwise_append.1 hsorted.1).2.2 x hx last (List.mem_singleton_self _)).le
    · rw [List.mem_singleton.1 hx]
  · cases hpage

/-- The last page shows all that is left. -/
theorem page_last (hsize : 1 ≤ size) (hpage : (page key size rows bound).2 = none) :
    (page key size rows bound).1 = selected key rows bound := by
  unfold page at hpage ⊢
  simp only at hpage ⊢
  split at hpage
  · rename_i hmore
    rw [Option.map_eq_none_iff, List.getLast?_eq_none_iff] at hpage
    rw [List.length_take] at hmore
    rw [List.take_take, List.take_eq_nil_iff] at hpage
    rcases hpage with hzero | hnil
    · omega
    · rw [hnil] at hmore
      simp at hmore
  · rename_i hfew
    rw [List.length_take] at hfew
    rw [List.take_take, List.take_of_length_le]
    omega

/-- What following the pages shows from a bound on. -/
structure Shows (key : α → κ) (table : ℕ → List α) (n : ℕ) (bound : Option κ) (pages : List (List α)) : Prop where
  ordered : pages.flatten.Pairwise fun a b => key b < key a
  below : ∀ x ∈ pages.flatten, Below key bound x
  complete : ∀ x ∈ table n, Below key bound x → x ∈ pages.flatten
  sound : ∀ x ∈ pages.flatten, ∃ m, x ∈ table m

theorem Grows.selected_sound {n : ℕ} : ∀ x ∈ selected key (table n) bound, ∃ m, x ∈ table m :=
  fun _ hx => ⟨n, (mem_selected.1 hx).1⟩

/-- **One page**, if the pages after it show what is below it. -/
theorem follow_step (hgrows : Grows key table) (hsize : 1 ≤ size) {n : ℕ} (bound : Option κ)
    (ih : ∀ next, (∀ b ∈ bound, next < b) →
      ∃ fuel pages, follow key size table fuel (n + 1) (some next) = some pages ∧ Shows key table (n + 1) (some next) pages) :
    ∃ fuel pages, follow key size table fuel n bound = some pages ∧ Shows key table n bound pages := by
  cases hpage : (page key size (table n) bound).2 with
  | none =>
    refine ⟨1, [(page key size (table n) bound).1], by simp only [follow, hpage], ?_⟩
    rw [page_last hsize hpage]
    refine ⟨?_, ?_, ?_, ?_⟩
    all_goals simp only [List.flatten_cons, List.flatten_nil, List.append_nil]
    · exact selected_sorted (hgrows.distinct n)
    · exact fun x hx => (mem_selected.1 hx).2
    · exact fun x hx hbelow => mem_selected.2 ⟨hx, hbelow⟩
    · exact Grows.selected_sound
  | some next =>
    obtain ⟨shown, rest, last, hselected, hshown, hlast, rfl, habove, hrest⟩ := page_more (hgrows.distinct n) hpage
    have hmem : ∀ x ∈ shown, x ∈ table n ∧ Below key bound x := by
      intro x hx
      refine mem_selected.1 ?_
      rw [hselected]
      exact List.mem_append_left _ hx
    obtain ⟨fuel, pages, hfollow, hshows⟩ := ih (key last) (hmem last hlast).2
    refine ⟨fuel + 1, shown :: pages, by simp only [follow, hpage, hfollow, Option.map_some, hshown], ?_⟩
    refine ⟨?_, ?_, ?_, ?_⟩
    all_goals simp only [List.flatten_cons, List.mem_append]
    · refine List.pairwise_append.2 ⟨?_, hshows.ordered, fun a ha b hb => ?_⟩
      · have hsorted : (selected key (table n) bound).Pairwise fun a b => key b < key a :=
          selected_sorted (hgrows.distinct n)
        rw [hselected] at hsorted
        exact (List.pairwise_append.1 hsorted).1
      · exact lt_of_lt_of_le (hshows.below b hb (key last) rfl) (habove a ha)
    · rintro x (hx | hx)
      · exact (hmem x hx).2
      · exact fun b hb => (hshows.below x hx (key last) rfl).trans ((hmem last hlast).2 b hb)
    · intro x hx hbelow
      have hx' : x ∈ selected key (table n) bound := mem_selected.2 ⟨hx, hbelow⟩
      rw [hselected] at hx'
      rcases List.mem_append.1 hx' with hx' | hx'
      · exact .inl hx'
      · refine .inr (hshows.complete x (hgrows.kept n x hx) ?_)
        rintro b hb
        obtain rfl := Option.some.inj hb
        exact hrest x hx'
    · rintro x (hx | hx)
      · exact ⟨n, (hmem x hx).1⟩
      · exact hshows.sound x hx

/-- **Following the pages ends**, and shows every row that was there at the start once, newest first, whatever rows are
added in between. -/
theorem follow_pages [WellFoundedLT κ] (hgrows : Grows key table) (hsize : 1 ≤ size) :
    ∃ fuel pages, follow key size table fuel 0 none = some pages ∧ Shows key table 0 none pages := by
  have hbound : ∀ (b : κ) (n : ℕ),
      ∃ fuel pages, follow key size table fuel n (some b) = some pages ∧ Shows key table n (some b) pages := by
    intro b
    induction b using WellFoundedLT.induction with
    | ind b ih =>
      intro n
      exact follow_step hgrows hsize (some b) fun next hnext => ih next (hnext b rfl) (n + 1)
  exact follow_step hgrows hsize none fun next _ => hbound next 1

end Keyset
