import Mathlib
import PolicySystem.Dict.Grouped

/-!
# Union-find on an ordered forest

A forest in which no parent is above its child, with path halving. The roots are the least items of their trees, and
the trees are the classes of the pairs that were joined.

* `root_find`: halving moves no item to another root;
* `Joins.union`: a union adds one pair to what the forest joins;
* `Joins.foldl`: what a loop of unions joins;
* `Components.eq`: the classes of two or more items, in order, are determined by the relation;
* `components_gathered`: a loop that collects the items under their roots collects these classes.
-/

namespace UnionFind

/-- A parent for every item, never above it; a root is its own parent. -/
@[ext]
structure Forest (ι : Type) [LinearOrder ι] where
  parent : ι → ι
  parent_le : ∀ i, parent i ≤ i

variable {ι : Type} [LinearOrder ι]

/-- Every item its own root. -/
def Forest.start : Forest ι := ⟨id, fun _ => le_rfl⟩

/-- `parent[i] = j`, for `j` not above `i`. -/
def Forest.point (f : Forest ι) (i j : ι) (h : j ≤ i) : Forest ι where
  parent := Function.update f.parent i j
  parent_le k := by
    by_cases hk : k = i
    · rw [hk, Function.update_self]
      exact h
    · rw [Function.update_of_ne hk]
      exact f.parent_le k

/-- `parent[i] = parent[parent[i]]`. -/
def Forest.halve (f : Forest ι) (i : ι) : Forest ι :=
  f.point i (f.parent (f.parent i)) ((f.parent_le _).trans (f.parent_le i))

theorem Forest.halve_parent (f : Forest ι) (i : ι) : (f.halve i).parent i = f.parent (f.parent i) :=
  Function.update_self ..

theorem Forest.parent_lt {f : Forest ι} {i : ι} (h : f.parent i ≠ i) : f.parent i < i :=
  lt_of_le_of_ne (f.parent_le i) h

theorem Forest.halve_lt {f : Forest ι} {i : ι} (h : f.parent i ≠ i) : (f.halve i).parent i < i := by
  rw [f.halve_parent]
  exact lt_of_le_of_lt (f.parent_le _) (Forest.parent_lt h)

/-- The root above an item. -/
def root [WellFoundedLT ι] (f : Forest ι) (i : ι) : ι := if f.parent i = i then i else root f (f.parent i)
termination_by (wellFounded_lt : WellFounded ((· < ·) : ι → ι → Prop)).wrap i
decreasing_by exact Forest.parent_lt (by assumption)

/-- The root above an item, and the forest with the path to it halved. -/
def find [WellFoundedLT ι] (f : Forest ι) (i : ι) : ι × Forest ι :=
  if f.parent i = i then (i, f) else find (f.halve i) ((f.halve i).parent i)
termination_by (wellFounded_lt : WellFounded ((· < ·) : ι → ι → Prop)).wrap i
decreasing_by exact Forest.halve_lt (by assumption)

/-- The trees of two items joined under the smaller of their roots. -/
def union [WellFoundedLT ι] (f : Forest ι) (a b : ι) : Forest ι :=
  let (rootA, f) := find f a
  let (rootB, f) := find f b
  if rootA = rootB then f else f.point (max rootA rootB) (min rootA rootB) min_le_max

/-! ## Roots -/

section Roots

variable [WellFoundedLT ι] {f : Forest ι} {i j : ι}

theorem root_of_eq (h : f.parent i = i) : root f i = i := by
  unfold root
  rw [if_pos h]

theorem root_parent (f : Forest ι) (i : ι) : root f (f.parent i) = root f i := by
  by_cases h : f.parent i = i
  · rw [h]
  · conv_rhs => unfold root
    rw [if_neg h]

/-- The root is at the top, and nothing of its tree is below it. -/
theorem parent_root (f : Forest ι) (i : ι) : f.parent (root f i) = root f i ∧ root f i ≤ i := by
  induction i using WellFoundedLT.induction with
  | ind i ih =>
    by_cases h : f.parent i = i
    · rw [root_of_eq h]
      exact ⟨h, le_rfl⟩
    · obtain ⟨htop, hle⟩ := ih (f.parent i) (Forest.parent_lt h)
      rw [root_parent] at htop hle
      exact ⟨htop, hle.trans (f.parent_le i)⟩

theorem root_le (f : Forest ι) (i : ι) : root f i ≤ i := (parent_root f i).2

@[simp]
theorem root_root (f : Forest ι) (i : ι) : root f (root f i) = root f i := root_of_eq (parent_root f i).1

@[simp]
theorem root_start (i : ι) : root Forest.start i = i := root_of_eq rfl

/-- Pointing an item at one whose root is the same keeps all roots. -/
theorem root_point {h : j ≤ i} (hroot : root f j = root f i) (hne : j = i → f.parent i = i) (k : ι) :
    root (f.point i j h) k = root f k := by
  induction k using WellFoundedLT.induction with
  | ind k ih =>
    by_cases hk : k = i
    · subst hk
      have hpoint : (f.point k j h).parent k = j := Function.update_self ..
      by_cases hjk : j = k
      · rw [root_of_eq (hpoint.trans hjk), root_of_eq (hne hjk)]
      · rw [← root_parent, hpoint, ih j (lt_of_le_of_ne h hjk), hroot]
    · have hpoint : (f.point i j h).parent k = f.parent k := Function.update_of_ne hk ..
      by_cases htop : f.parent k = k
      · rw [root_of_eq (hpoint.trans htop), root_of_eq htop]
      · rw [← root_parent, hpoint, ih _ (Forest.parent_lt htop), root_parent]

theorem root_halve (f : Forest ι) (i k : ι) : root (f.halve i) k = root f k := by
  refine root_point ?_ (fun hi => ?_) k
  · rw [root_parent, root_parent]
  · have hle := f.parent_le (f.parent i)
    rw [hi] at hle
    exact le_antisymm (f.parent_le i) hle

/-- **Halving moves no item to another root.** -/
theorem root_find (f : Forest ι) (i : ι) : (find f i).1 = root f i ∧ ∀ k, root (find f i).2 k = root f k := by
  induction i using WellFoundedLT.induction generalizing f with
  | ind i ih =>
    unfold find
    split
    · rename_i h
      exact ⟨(root_of_eq h).symm, fun _ => rfl⟩
    · rename_i h
      obtain ⟨hfound, hroots⟩ := ih _ (Forest.halve_lt h) (f.halve i)
      refine ⟨?_, fun k => (hroots k).trans (root_halve f i k)⟩
      rw [hfound, root_parent, root_halve]

theorem find_fst (f : Forest ι) (i : ι) : (find f i).1 = root f i := (root_find f i).1

theorem root_find_snd (f : Forest ι) (i k : ι) : root (find f i).2 k = root f k := (root_find f i).2 k

/-- A root pointed at another one that is smaller. -/
theorem root_point_root {h : j ≤ i} (hi : f.parent i = i) (hj : f.parent j = j) (k : ι) :
    root (f.point i j h) k = if root f k = i then j else root f k := by
  have htop : (f.point i j h).parent j = j := by
    by_cases hji : j = i
    · subst hji
      exact Function.update_self ..
    · exact (Function.update_of_ne hji ..).trans hj
  induction k using WellFoundedLT.induction with
  | ind k ih =>
    by_cases hk : k = i
    · subst hk
      have hpoint : (f.point k j h).parent k = j := Function.update_self ..
      rw [if_pos (root_of_eq hi), ← root_parent, hpoint, root_of_eq htop]
    · have hpoint : (f.point i j h).parent k = f.parent k := Function.update_of_ne hk ..
      by_cases hroot : f.parent k = k
      · rw [root_of_eq (hpoint.trans hroot), root_of_eq hroot, if_neg hk]
      · rw [← root_parent, hpoint, ih _ (Forest.parent_lt hroot), root_parent]

theorem root_union (f : Forest ι) (a b k : ι) :
    root (union f a b) k =
      if root f k = max (root f a) (root f b) then min (root f a) (root f b) else root f k := by
  have hroots : ∀ k, root (find (find f a).2 b).2 k = root f k := fun k => by rw [root_find_snd, root_find_snd]
  have hfound : (find (find f a).2 b).1 = root f b := by rw [find_fst, root_find_snd]
  unfold union
  simp only [find_fst f a, hfound]
  split
  · rename_i heq
    rw [hroots, heq, max_self, min_self]
    split
    · assumption
    · rfl
  · rw [root_point_root, hroots]
    · rcases max_choice (root f a) (root f b) with h | h <;> rw [h, ← hroots] <;>
        rw [(parent_root _ _).1]
    · rcases min_choice (root f a) (root f b) with h | h <;> rw [h, ← hroots] <;>
        rw [(parent_root _ _).1]

end Roots

/-! ## What a forest joins -/

/-- Two items have one root exactly when a chain of pairs of `r` connects them. -/
def Joins [WellFoundedLT ι] (f : Forest ι) (r : ι → ι → Prop) : Prop := ∀ i j, root f i = root f j ↔ Relation.EqvGen r i j

section Joins

variable [WellFoundedLT ι] {f f' : Forest ι} {r s : ι → ι → Prop}

theorem joins_start : Joins (Forest.start : Forest ι) fun _ _ => False := by
  intro i j
  rw [root_start, root_start]
  constructor
  · intro h
    exact h ▸ .refl i
  · intro h
    induction h with
    | rel _ _ h => exact h.elim
    | refl => rfl
    | symm _ _ _ ih => exact ih.symm
    | trans _ _ _ _ _ ih ih' => exact ih.trans ih'

theorem Joins.of_roots (h : Joins f r) (hroots : ∀ k, root f' k = root f k) : Joins f' r := by
  intro i j
  rw [hroots, hroots]
  exact h i j

theorem Joins.find (h : Joins f r) (i : ι) : Joins (find f i).2 r := h.of_roots (root_find_snd f i)

/-- A relation between what is joined and its closure. -/
theorem Joins.of_le (h : Joins f r) (hrs : ∀ i j, r i j → s i j) (hsr : ∀ i j, s i j → Relation.EqvGen r i j) :
    Joins f s := by
  intro i j
  rw [h i j]
  refine ⟨Relation.EqvGen.mono hrs i j, fun hs => ?_⟩
  induction hs with
  | rel i j h => exact hsr i j h
  | refl i => exact .refl i
  | symm _ _ _ ih => exact .symm _ _ ih
  | trans _ _ _ _ _ ih ih' => exact .trans _ _ _ ih ih'

theorem Joins.root (h : Joins f r) (i : ι) : Relation.EqvGen r (UnionFind.root f i) i := (h _ _).1 (root_root f i)

/-- **A union adds one pair.** -/
theorem Joins.union (h : Joins f r) (a b : ι) : Joins (union f a b) fun i j => r i j ∨ i = a ∧ j = b := by
  have hmono : ∀ {i j}, Relation.EqvGen r i j → Relation.EqvGen (fun i j => r i j ∨ i = a ∧ j = b) i j :=
    fun hij => Relation.EqvGen.mono (fun _ _ h => Or.inl h) _ _ hij
  have hroots : Relation.EqvGen (fun i j => r i j ∨ i = a ∧ j = b) (UnionFind.root f a) (UnionFind.root f b) :=
    .trans _ _ _ (hmono (h.root a)) (.trans _ _ _ (.rel _ _ (.inr ⟨rfl, rfl⟩)) (.symm _ _ (hmono (h.root b))))
  -- every item is still connected to its root
  have hup : ∀ k, Relation.EqvGen (fun i j => r i j ∨ i = a ∧ j = b) (UnionFind.root (UnionFind.union f a b) k) k := by
    intro k
    rw [root_union]
    split
    · rename_i hk
      refine .trans _ _ _ ?_ (hk ▸ hmono (h.root k))
      rcases le_total (UnionFind.root f a) (UnionFind.root f b) with hle | hle
      · rw [min_eq_left hle, max_eq_right hle]
        exact hroots
      · rw [min_eq_right hle, max_eq_left hle]
        exact .symm _ _ hroots
    · exact hmono (h.root k)
  intro i j
  constructor
  · intro heq
    exact .trans _ _ _ (.symm _ _ (hup i)) (heq ▸ hup j)
  · intro hij
    induction hij with
    | rel i j hij =>
      rcases hij with hij | ⟨rfl, rfl⟩
      · rw [root_union, root_union, (h i j).2 (.rel _ _ hij)]
      · rw [root_union, root_union]
        rcases le_total (UnionFind.root f i) (UnionFind.root f j) with hle | hle
        · rw [min_eq_left hle, max_eq_right hle, if_pos rfl]
          split <;> rfl
        · rw [min_eq_right hle, max_eq_left hle, if_pos rfl]
          split <;> rfl
    | refl => rfl
    | symm _ _ _ ih => exact ih.symm
    | trans _ _ _ _ _ ih ih' => exact ih.trans ih'

/-- A pair that is joined already adds nothing. -/
theorem Joins.joined (h : Joins f r) {a b : ι} (hab : UnionFind.root f a = UnionFind.root f b) :
    Joins f fun i j => r i j ∨ i = a ∧ j = b := by
  refine h.of_le (fun _ _ => .inl) fun i j hij => ?_
  rcases hij with hij | ⟨rfl, rfl⟩
  · exact .rel _ _ hij
  · exact (h i j).1 hab

/-- **What a loop joins**, if each of its steps adds the pairs of its item. -/
theorem Joins.foldl {α : Type} {step : Forest ι → α → Forest ι} {link : α → ι → ι → Prop}
    (hstep : ∀ f r a, Joins f r → Joins (step f a) fun i j => r i j ∨ link a i j) (h : Joins f r) (items : List α) :
    Joins (items.foldl step f) fun i j => r i j ∨ ∃ a ∈ items, link a i j := by
  induction items generalizing f r with
  | nil =>
    refine h.of_le (fun _ _ => .inl) fun i j hij => ?_
    rcases hij with hij | ⟨_, ha, _⟩
    · exact .rel _ _ hij
    · exact absurd ha List.not_mem_nil
  | cons a items ih =>
    have hrest := ih (hstep f r a h)
    intro i j
    rw [List.foldl_cons, hrest i j]
    have heq : (fun i j => (r i j ∨ link a i j) ∨ ∃ b ∈ items, link b i j) =
        fun i j => r i j ∨ ∃ b ∈ a :: items, link b i j := by
      funext i j
      simp only [List.mem_cons, exists_eq_or_imp, or_assoc]
    rw [heq]

end Joins

/-! ## The classes -/

/-- The classes of two or more items of a relation, each in order. -/
structure Components (r : ι → ι → Prop) (classes : List (List ι)) : Prop where
  sorted : ∀ c ∈ classes, c.Pairwise (· < ·)
  several : ∀ c ∈ classes, 1 < c.length
  closed : ∀ c ∈ classes, ∀ i ∈ c, ∀ j, j ∈ c ↔ Relation.EqvGen r i j
  covered : ∀ i j, i ≠ j → Relation.EqvGen r i j → ∃ c ∈ classes, i ∈ c
  disjoint : classes.Pairwise List.Disjoint

section Components

variable {r : ι → ι → Prop} {classes classes' : List (List ι)}

theorem Components.ne_nil (h : Components r classes) {c : List ι} (hc : c ∈ classes) : c ≠ [] := by
  have hlength := h.several c hc
  intro hnil
  rw [hnil] at hlength
  simp at hlength

theorem Components.mem (h : Components r classes) (h' : Components r classes') {c : List ι} (hc : c ∈ classes) :
    c ∈ classes' := by
  obtain ⟨i, j, rest, rfl⟩ : ∃ i j rest, c = i :: j :: rest := by
    have hlength := h.several c hc
    match c with
    | i :: j :: rest => exact ⟨i, j, rest, rfl⟩
  have hij : i ≠ j := (List.rel_of_pairwise_cons (h.sorted _ hc) (List.mem_cons_self ..)).ne
  have hjoined : Relation.EqvGen r i j :=
    (h.closed _ hc i (List.mem_cons_self ..) j).1 (List.mem_cons_of_mem _ (List.mem_cons_self ..))
  obtain ⟨d, hd, hi⟩ := h'.covered i j hij hjoined
  have hmem : ∀ k, k ∈ i :: j :: rest ↔ k ∈ d := fun k => by
    rw [h.closed _ hc i (List.mem_cons_self ..) k, h'.closed d hd i hi k]
  have hperm : (i :: j :: rest).Perm d :=
    (List.perm_ext_iff_of_nodup ((h.sorted _ hc).imp ne_of_lt) ((h'.sorted d hd).imp ne_of_lt)).2 hmem
  have heq := hperm.eq_of_pairwise (fun _ _ _ _ hab hba => (lt_asymm hab hba).elim) (h.sorted _ hc) (h'.sorted d hd)
  exact heq ▸ hd

theorem Components.nodup (h : Components r classes) : classes.Nodup := by
  refine h.disjoint.imp_of_mem fun {c _} hc _ hdisjoint heq => ?_
  obtain ⟨i, hi⟩ := List.exists_mem_of_ne_nil c (h.ne_nil hc)
  exact hdisjoint hi (heq ▸ hi)

theorem Components.perm (h : Components r classes) (h' : Components r classes') : classes.Perm classes' :=
  (List.perm_ext_iff_of_nodup h.nodup h'.nodup).2 fun _ => ⟨h.mem h', h'.mem h⟩

/-- **The classes are determined**, once they are put in an order. -/
theorem Components.eq {before : List ι → List ι → Prop} (hasymm : ∀ {c d}, before c d → ¬ before d c)
    (h : Components r classes) (h' : Components r classes') (hsorted : classes.Pairwise before)
    (hsorted' : classes'.Pairwise before) : classes = classes' :=
  (h.perm h').eq_of_pairwise (fun _ _ _ _ hcd hdc => (hasymm hcd hdc).elim) hsorted hsorted'

end Components

/-! ## Collecting the classes -/

section Gather

variable [WellFoundedLT ι] {α : Type} {value : ι → α} {f : Forest ι} {items : List ι} {r : ι → ι → Prop}

/-- `components[_find(parent, i)].append(value)` for each item. -/
def gather (value : ι → α) (f : Forest ι) (items : List ι) : List (ι × List α) :=
  (items.foldl (fun (state : Forest ι × List (ι × List α)) i =>
    let (top, f) := find state.1 i
    (f, Grouped.append top (value i) state.2)) (f, [])).2

/-- The items under their roots. -/
def classesOf (f : Forest ι) (items : List ι) : List (List ι) :=
  ((Grouped.grouped (root f) items).map Prod.snd).filter fun c => 1 < c.length

/-- **What is gathered does not depend on the halving.** -/
theorem gather_eq (value : ι → α) (f : Forest ι) (items : List ι) :
    gather value f items = (Grouped.grouped (root f) items).map fun group => (group.1, group.2.map value) := by
  have hstate : ∀ items : List ι, ∃ f' : Forest ι, (∀ k, root f' k = root f k) ∧
      items.foldl (fun (state : Forest ι × List (ι × List α)) i =>
        ((find state.1 i).2, Grouped.append (find state.1 i).1 (value i) state.2)) (f, []) =
      (f', (Grouped.grouped (root f) items).map fun group => (group.1, group.2.map value)) := by
    intro items
    induction items using List.reverseRecOn with
    | nil => exact ⟨f, fun _ => rfl, rfl⟩
    | append_singleton items i ih =>
      obtain ⟨f', hroots, heq⟩ := ih
      refine ⟨(find f' i).2, fun k => (root_find_snd f' i k).trans (hroots k), ?_⟩
      rw [List.foldl_append, heq, List.foldl_cons, List.foldl_nil, Grouped.grouped_concat, Grouped.map_append]
      simp only [find_fst, hroots]
  obtain ⟨f', -, heq⟩ := hstate items
  exact congrArg Prod.snd heq

/-- The roots, in the order of their first items, are the items that are their own roots. -/
theorem collect_roots (hsorted : items.Pairwise (· < ·)) (hdown : ∀ i ∈ items, ∀ j, j < i → j ∈ items) :
    FirstWins.collect id (items.map (root f)) = items.filter fun i => root f i = i := by
  induction items using List.reverseRecOn with
  | nil => rfl
  | append_singleton items i ih =>
    obtain ⟨hsorted', -, hlast⟩ := List.pairwise_append.1 hsorted
    have hbelow : ∀ k ∈ items, k < i := fun k hk => hlast k hk i (List.mem_singleton_self i)
    have hdown' : ∀ k ∈ items, ∀ j, j < k → j ∈ items := by
      intro k hk j hj
      have hmem := hdown k (List.mem_append_left _ hk) j hj
      rcases List.mem_append.1 hmem with h | h
      · exact h
      · exact absurd (List.mem_singleton.1 h) (hj.trans (hbelow k hk)).ne
    rw [List.map_append, List.map_singleton, FirstWins.collect_concat, FirstWins.keep, List.map_id, id,
      List.filter_append, ← ih hsorted' hdown']
    by_cases htop : root f i = i
    · rw [if_neg, htop]
      · simp [htop]
      · rw [FirstWins.mem_collect_id, htop, List.mem_map]
        rintro ⟨k, hk, hroot⟩
        exact absurd (hbelow k hk) (not_lt.2 (hroot ▸ root_le f k))
    · have hlt : root f i < i := lt_of_le_of_ne (root_le f i) htop
      rw [if_pos]
      · simp [htop]
      · rw [FirstWins.mem_collect_id, List.mem_map]
        refine ⟨root f i, ?_, root_root f i⟩
        have hmem := hdown i (List.mem_append_right _ (List.mem_singleton_self i)) _ hlt
        rcases List.mem_append.1 hmem with h | h
        · exact h
        · exact absurd (List.mem_singleton.1 h) htop

omit [WellFoundedLT ι] in
theorem head_of_least {k : ι} (hsorted : items.Pairwise (· < ·)) (hk : k ∈ items) (hle : ∀ i ∈ items, k ≤ i) :
    items.head? = some k := by
  cases items with
  | nil => exact absurd hk List.not_mem_nil
  | cons i rest =>
    rcases List.mem_cons.1 hk with rfl | hk
    · rfl
    · have hlt := List.rel_of_pairwise_cons hsorted hk
      exact absurd hlt (not_lt.2 (hle i (List.mem_cons_self ..)))

/-- The key of the first item of a class is below that of another. -/
def FirstBefore {κ : Type} [Preorder κ] (key : ι → κ) (c d : List ι) : Prop :=
  ∃ i ∈ c.head?, ∃ j ∈ d.head?, key i < key j

omit [LinearOrder ι] [WellFoundedLT ι] in
theorem FirstBefore.asymm {κ : Type} [Preorder κ] {key : ι → κ} {c d : List ι} (h : FirstBefore key c d) :
    ¬ FirstBefore key d c := by
  rintro ⟨j', hj', i', hi', hlt'⟩
  obtain ⟨i, hi, j, hj, hlt⟩ := h
  rw [Option.mem_def] at hi hj hi' hj'
  rw [hi] at hi'
  rw [hj] at hj'
  rw [← Option.some.inj hi', ← Option.some.inj hj'] at hlt'
  exact lt_asymm hlt hlt'

/-- **The classes gathered of all items** are those of the relation, in the order of their first items. -/
theorem components_gathered (h : Joins f r) (hsorted : items.Pairwise (· < ·)) (hall : ∀ i, i ∈ items) :
    Components r (classesOf f items) ∧ (classesOf f items).Pairwise (FirstBefore id) := by
  have heq : classesOf f items = ((items.filter fun i => root f i = i).map fun k =>
      items.filter fun i => root f i = k).filter fun c => 1 < c.length := by
    unfold classesOf
    rw [Grouped.grouped_eq, collect_roots hsorted fun _ _ j _ => hall j, List.map_map]
    rfl
  have hmem : ∀ c ∈ classesOf f items, 1 < c.length ∧ ∃ k, root f k = k ∧ c = items.filter fun i => root f i = k := by
    intro c hc
    rw [heq, List.mem_filter, List.mem_map] at hc
    obtain ⟨⟨k, hk, rfl⟩, hlength⟩ := hc
    exact ⟨of_decide_eq_true hlength, k, of_decide_eq_true (List.mem_filter.1 hk).2, rfl⟩
  have hhead : ∀ k, root f k = k → (items.filter fun i => root f i = k).head? = some k := by
    intro k hk
    refine head_of_least (hsorted.sublist List.filter_sublist) ?_ fun i hi => ?_
    · exact List.mem_filter.2 ⟨hall k, decide_eq_true hk⟩
    · rw [← of_decide_eq_true (List.mem_filter.1 hi).2]
      exact root_le f i
  have hroots : ((items.filter fun i => root f i = i).Pairwise (· < ·)) := hsorted.sublist List.filter_sublist
  refine ⟨⟨fun c hc => ?_, fun c hc => (hmem c hc).1, fun c hc i hi j => ?_, fun i j hne hij => ?_, ?_⟩, ?_⟩
  · obtain ⟨-, k, -, rfl⟩ := hmem c hc
    exact hsorted.sublist List.filter_sublist
  · obtain ⟨-, k, -, rfl⟩ := hmem c hc
    have hik : root f i = k := of_decide_eq_true (List.mem_filter.1 hi).2
    rw [List.mem_filter, decide_eq_true_eq, ← h i j, hik]
    exact ⟨fun hj => hj.2.symm, fun hj => ⟨hall j, hj.symm⟩⟩
  · refine ⟨items.filter fun k => root f k = root f i, ?_, List.mem_filter.2 ⟨hall i, decide_eq_true rfl⟩⟩
    have hi : i ∈ items.filter fun k => root f k = root f i := List.mem_filter.2 ⟨hall i, decide_eq_true rfl⟩
    have hj : j ∈ items.filter fun k => root f k = root f i :=
      List.mem_filter.2 ⟨hall j, decide_eq_true ((h i j).2 hij).symm⟩
    rw [heq, List.mem_filter, List.mem_map]
    refine ⟨⟨root f i, List.mem_filter.2 ⟨hall _, decide_eq_true (root_root f i)⟩, rfl⟩, decide_eq_true ?_⟩
    generalize items.filter (fun k => root f k = root f i) = c at hi hj
    match c with
    | [] => exact absurd hi List.not_mem_nil
    | [k] => exact absurd ((List.mem_singleton.1 hi).trans (List.mem_singleton.1 hj).symm) hne
    | _ :: _ :: _ => simp
  · rw [heq]
    refine List.Pairwise.filter _ (List.pairwise_map.2 (hroots.imp fun {k l} hlt => ?_))
    intro i hi hi'
    exact hlt.ne ((of_decide_eq_true (List.mem_filter.1 hi).2).symm.trans (of_decide_eq_true (List.mem_filter.1 hi').2))
  · rw [heq]
    refine List.Pairwise.filter _ (List.pairwise_map.2 (hroots.imp_of_mem fun {k l} hk hl hlt => ?_))
    exact ⟨k, hhead k (of_decide_eq_true (List.mem_filter.1 hk).2), l,
      hhead l (of_decide_eq_true (List.mem_filter.1 hl).2), hlt⟩

/-- The components of two or more items, each made into something. -/
def build {β : Type} (make : (members : List α) → 1 < members.length → β) (components : List (ι × List α)) : List β :=
  components.filterMap fun component =>
    if several : 1 < component.2.length then some (make component.2 several) else none

/-- What is made of a component is made of a class, class by class. -/
theorem forall₂_build {β : Type} (make : (members : List α) → 1 < members.length → β) :
    List.Forall₂ (fun c b => ∃ several, b = make (c.map value) several) (classesOf f items)
      (build make (gather value f items)) := by
  rw [gather_eq]
  unfold build classesOf
  generalize Grouped.grouped (root f) items = groups
  induction groups with
  | nil => exact .nil
  | cons group groups ih =>
    rw [List.map_cons, List.map_cons]
    by_cases hlength : 1 < group.2.length
    · have hmapped : 1 < (group.2.map value).length := by rwa [List.length_map]
      rw [List.filter_cons_of_pos (by simpa using hlength), List.filterMap_cons_some (dif_pos hmapped)]
      exact .cons ⟨hmapped, rfl⟩ ih
    · have hmapped : ¬ 1 < (group.2.map value).length := by rwa [List.length_map]
      rw [List.filter_cons_of_neg (by simpa using hlength), List.filterMap_cons_none (dif_neg hmapped)]
      exact ih

theorem build_congr {β : Type} {f' : Forest ι} {make : (members : List α) → 1 < members.length → β}
    (h : classesOf f items = classesOf f' items) :
    build make (gather value f items) = build make (gather value f' items) := by
  have hleft := @forall₂_build _ _ _ _ value f items _ make
  have hright := @forall₂_build _ _ _ _ value f' items _ make
  rw [h] at hleft
  refine List.right_unique_forall₂' (fun c b b' hb hb' => ?_) hleft hright
  obtain ⟨_, rfl⟩ := hb
  obtain ⟨_, rfl⟩ := hb'
  rfl

end Gather

/-! ## Classes by parts -/

/-- The classes of a relation among the items of a part. -/
structure ComponentsOn (part : ι → Prop) (r : ι → ι → Prop) (classes : List (List ι)) : Prop where
  sorted : ∀ c ∈ classes, c.Pairwise (· < ·)
  several : ∀ c ∈ classes, 1 < c.length
  within : ∀ c ∈ classes, ∀ i ∈ c, part i
  closed : ∀ c ∈ classes, ∀ i ∈ c, ∀ j, j ∈ c ↔ Relation.EqvGen r i j
  covered : ∀ i j, part i → i ≠ j → Relation.EqvGen r i j → ∃ c ∈ classes, i ∈ c
  disjoint : classes.Pairwise List.Disjoint

section Parts

variable {κ : Type} {e : κ → ι} {r : ι → ι → Prop} {r' : κ → κ → Prop}

omit [LinearOrder ι] in
/-- A chain of pairs that starts among the named items stays among them. -/
theorem eqvGen_reindex (hr : ∀ i j, r' i j ↔ r (e i) (e j))
    (hclosed : ∀ i j, r (e i) j ∨ r j (e i) → ∃ k, e k = j) {i : κ} {j : ι} :
    Relation.EqvGen r (e i) j ↔ ∃ k, e k = j ∧ Relation.EqvGen r' i k := by
  constructor
  · intro h
    have hboth : ∀ x y, Relation.EqvGen r x y → (∀ i, e i = x → ∃ k, e k = y ∧ Relation.EqvGen r' i k) ∧
        ∀ i, e i = y → ∃ k, e k = x ∧ Relation.EqvGen r' i k := by
      intro x y h
      induction h with
      | rel x y h =>
        refine ⟨?_, ?_⟩
        · rintro i rfl
          obtain ⟨k, rfl⟩ := hclosed i y (.inl h)
          exact ⟨k, rfl, .rel _ _ ((hr i k).2 h)⟩
        · rintro i rfl
          obtain ⟨k, rfl⟩ := hclosed i x (.inr h)
          exact ⟨k, rfl, .symm _ _ (.rel _ _ ((hr k i).2 h))⟩
      | refl x => exact ⟨fun i hi => ⟨i, hi, .refl i⟩, fun i hi => ⟨i, hi, .refl i⟩⟩
      | symm _ _ _ ih => exact ⟨ih.2, ih.1⟩
      | trans x y z _ _ ih ih' =>
        refine ⟨fun i hi => ?_, fun i hi => ?_⟩
        · obtain ⟨k, hk, hik⟩ := ih.1 i hi
          obtain ⟨l, hl, hkl⟩ := ih'.1 k hk
          exact ⟨l, hl, .trans _ _ _ hik hkl⟩
        · obtain ⟨k, hk, hik⟩ := ih'.2 i hi
          obtain ⟨l, hl, hkl⟩ := ih.2 k hk
          exact ⟨l, hl, .trans _ _ _ hik hkl⟩
    exact (hboth _ _ h).1 i rfl
  · rintro ⟨k, rfl, h⟩
    induction h with
    | rel i k h => exact .rel _ _ ((hr i k).1 h)
    | refl i => exact .refl _
    | symm _ _ _ ih => exact .symm _ _ ih
    | trans _ _ _ _ _ ih ih' => exact .trans _ _ _ ih ih'

/-- Classes over the positions of a part are classes of the part. -/
theorem Components.reindex [LinearOrder κ] (he : StrictMono e) (hr : ∀ i j, r' i j ↔ r (e i) (e j))
    (hclosed : ∀ i j, r (e i) j ∨ r j (e i) → ∃ k, e k = j) {classes : List (List κ)} (h : Components r' classes) :
    ComponentsOn (fun i => ∃ k, e k = i) r (classes.map (List.map e)) := by
  have hreindex : ∀ {i : κ} {j : ι}, Relation.EqvGen r (e i) j ↔ ∃ k, e k = j ∧ Relation.EqvGen r' i k :=
    eqvGen_reindex hr hclosed
  refine ⟨?_, ?_, ?_, ?_, ?_, ?_⟩
  · intro c hc
    obtain ⟨d, hd, rfl⟩ := List.mem_map.1 hc
    exact List.pairwise_map.2 ((h.sorted d hd).imp fun hlt => he hlt)
  · intro c hc
    obtain ⟨d, hd, rfl⟩ := List.mem_map.1 hc
    rw [List.length_map]
    exact h.several d hd
  · intro c hc i hi
    obtain ⟨d, hd, rfl⟩ := List.mem_map.1 hc
    obtain ⟨k, -, rfl⟩ := List.mem_map.1 hi
    exact ⟨k, rfl⟩
  · intro c hc i hi j
    obtain ⟨d, hd, rfl⟩ := List.mem_map.1 hc
    obtain ⟨k, hk, rfl⟩ := List.mem_map.1 hi
    rw [hreindex, List.mem_map]
    exact exists_congr fun l => (and_congr_left' (h.closed d hd k hk l)).trans and_comm
  · rintro _ j ⟨i, rfl⟩ hne hij
    obtain ⟨k, rfl, hik⟩ := hreindex.1 hij
    obtain ⟨c, hc, hi⟩ := h.covered i k (fun heq => hne (congrArg e heq)) hik
    exact ⟨c.map e, List.mem_map_of_mem hc, List.mem_map_of_mem hi⟩
  · refine List.pairwise_map.2 (h.disjoint.imp fun {c d} hdisjoint x hc hd => ?_)
    obtain ⟨i, hi, rfl⟩ := List.mem_map.1 hc
    obtain ⟨k, hk, heq⟩ := List.mem_map.1 hd
    exact hdisjoint hi (he.injective heq ▸ hk)

/-- **The classes part by part** are the classes of the whole. -/
theorem ComponentsOn.flatMap {key : ι → κ} {keys : List κ} (hnodup : keys.Nodup) (hkeys : ∀ i, key i ∈ keys)
    {parts : κ → List (List ι)} (h : ∀ k ∈ keys, ComponentsOn (fun i => key i = k) r (parts k)) :
    Components r (keys.flatMap parts) := by
  refine ⟨?_, ?_, ?_, ?_, ?_⟩
  · intro c hc
    obtain ⟨k, hk, hc⟩ := List.mem_flatMap.1 hc
    exact (h k hk).sorted c hc
  · intro c hc
    obtain ⟨k, hk, hc⟩ := List.mem_flatMap.1 hc
    exact (h k hk).several c hc
  · intro c hc
    obtain ⟨k, hk, hc⟩ := List.mem_flatMap.1 hc
    exact (h k hk).closed c hc
  · intro i j hne hij
    obtain ⟨c, hc, hi⟩ := (h (key i) (hkeys i)).covered i j rfl hne hij
    exact ⟨c, List.mem_flatMap.2 ⟨key i, hkeys i, hc⟩, hi⟩
  · refine List.pairwise_flatMap.2 ⟨fun k hk => (h k hk).disjoint, hnodup.imp_of_mem fun {k l} hk hl hne => ?_⟩
    intro c hc d hd i hi hi'
    exact hne (((h k hk).within c hc i hi).symm.trans ((h l hl).within d hd i hi'))

end Parts

end UnionFind
