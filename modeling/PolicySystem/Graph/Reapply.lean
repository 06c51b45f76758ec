import PolicySystem.Graph.PropertyGraph

/-!
# Writing a list of writes again

A list of graph writes that was already applied in part is applied in full. The result is the one of
applying it once, when every write of node or edge contents is an overwrite and no write needs a node
that only a later write of the list creates.

* `Overwrites`: a function that fixes some readings of a value and leaves the others;
* `foldl_absorb`: a list of overwrites absorbs any of its members applied before it;
* `Grounded`: every node a write needs is there, or is decided by the list itself before or after it;
* `reapply`: **applying a grounded list after any of its own writes is applying it once.**
-/

set_option linter.unusedSectionVars false

open Std (ExtTreeMap TransOrd LawfulEqOrd)

/-- The readings that determine a value. -/
class Readings (V : Type) (ι β : outParam Type) where
  read : V → ι → β
  ext : ∀ {v w : V}, (∀ i, read v i = read w i) → v = w

section Overwrites

variable {V ι β : Type} [Readings V ι β]

open Readings

/-- **An overwrite** fixes some readings and leaves the others as they are. -/
def Overwrites (f : V → V) : Prop :=
  ∃ a : ι → Option β, ∀ v i, read (f v) i = (a i).getD (read v i)

theorem Overwrites.id : Overwrites (fun v : V => v) := ⟨fun _ => none, fun _ _ => rfl⟩

theorem Overwrites.comp {f g : V → V} (hf : Overwrites f) (hg : Overwrites g) :
    Overwrites fun v => g (f v) := by
  obtain ⟨a, ha⟩ := hf
  obtain ⟨b, hb⟩ := hg
  refine ⟨fun i => (b i).or (a i), fun v i => ?_⟩
  simp only [hb, ha]
  cases b i <;> rfl

/-- An overwrite applied before and after another one might as well come only after it. -/
theorem Overwrites.absorb {f g : V → V} (hf : Overwrites f) (hg : Overwrites g) (v : V) :
    f (g (f v)) = f (g v) := by
  obtain ⟨a, ha⟩ := hf
  obtain ⟨b, hb⟩ := hg
  refine ext fun i => ?_
  simp only [ha, hb]
  cases a i <;> rfl

/-- Apply a list of functions in order. -/
def runAll (fs : List (V → V)) (v : V) : V := fs.foldl (fun v f => f v) v

theorem Overwrites.runAll {fs : List (V → V)} (h : ∀ f ∈ fs, Overwrites f) : Overwrites (runAll fs) := by
  induction fs with
  | nil => exact Overwrites.id
  | cons f fs ih =>
    exact (h f (by simp)).comp (ih fun g hg => h g (List.mem_cons_of_mem _ hg))

theorem runAll_append (fs gs : List (V → V)) (v : V) : runAll (fs ++ gs) v = runAll gs (runAll fs v) :=
  List.foldl_append

theorem runAll_absorb_one {fs : List (V → V)} (h : ∀ f ∈ fs, Overwrites f) {q : V → V} (hq : q ∈ fs) (v : V) :
    runAll fs (q v) = runAll fs v := by
  obtain ⟨xs, ys, rfl⟩ := List.append_of_mem hq
  have hxs : Overwrites (runAll xs) := Overwrites.runAll fun f hf => h f (by simp [hf])
  rw [runAll_append, runAll_append]
  show runAll ys (q (runAll xs (q v))) = runAll ys (q (runAll xs v))
  rw [(h q hq).absorb hxs]

/-- **A list of overwrites absorbs any of its members applied before it.** -/
theorem foldl_absorb {fs qs : List (V → V)} (h : ∀ f ∈ fs, Overwrites f) (hq : ∀ q ∈ qs, q ∈ fs) (v : V) :
    runAll fs (runAll qs v) = runAll fs v := by
  induction qs generalizing v with
  | nil => rfl
  | cons q qs ih =>
    show runAll fs (runAll qs (q v)) = runAll fs v
    rw [ih (fun g hg => hq g (List.mem_cons_of_mem _ hg)), runAll_absorb_one h (hq q (by simp))]

end Overwrites

/-- One write to a property graph. A created node or edge starts from the default value. -/
inductive GraphWrite (N V K P : Type) where
  | put (n : N) (f : V → V)
  | edit (n : N) (f : V → V)
  | drop (n : N)
  | putEdge (k : K) (f : P → P)
  | dropEdges (k : K)

namespace PropertyGraph

open Incidence GraphWrite

variable {N V K P : Type} [Ord N] [TransOrd N] [LawfulEqOrd N] [Incidence K N] [DecidableEq N] [DecidableEq K]
variable [Inhabited V] [Inhabited P]

/-- Apply one write. -/
def write (g : PropertyGraph N V K P) : GraphWrite N V K P → PropertyGraph N V K P
  | put n f => g.setNode n fun v => f (v.getD default)
  | edit n f => g.editNode n f
  | drop n => g.deleteNode n
  | putEdge k f => g.setEdge k default f
  | dropEdges k => g.deleteEdges k

/-- Apply a list of writes in order. -/
def writeAll (g : PropertyGraph N V K P) (E : List (GraphWrite N V K P)) : PropertyGraph N V K P :=
  E.foldl write g

@[simp] theorem writeAll_nil (g : PropertyGraph N V K P) : g.writeAll [] = g := rfl

@[simp] theorem writeAll_cons (g : PropertyGraph N V K P) (w : GraphWrite N V K P) (E) :
    g.writeAll (w :: E) = (g.write w).writeAll E := rfl

theorem writeAll_append (g : PropertyGraph N V K P) (E F : List (GraphWrite N V K P)) :
    g.writeAll (E ++ F) = (g.writeAll E).writeAll F := List.foldl_append

variable {ι β κ γ : Type} [Readings V ι β] [Readings P κ γ]

/-- Contents are only overwritten. -/
def Overwriting : GraphWrite N V K P → Prop
  | put _ f => Overwrites f
  | edit _ f => Overwrites f
  | putEdge _ f => Overwrites f
  | _ => True

/-- The nodes a write has no effect without, though it would have one on a blank node. -/
def Needs : GraphWrite N V K P → N → Prop
  | edit m f, n => m = n ∧ f default ≠ default
  | putEdge k _, n => source k = n ∨ target k = n
  | _, _ => False

/-- Some write of the list creates the node. -/
def Creates (E : List (GraphWrite N V K P)) (n : N) : Prop := ∃ f, put n f ∈ E

/-- **Grounded.** A node that a write of the list needs is in the graph, is created earlier in the list, is
deleted somewhere in it, or is never created by it. -/
def Grounded (g : PropertyGraph N V K P) (E : List (GraphWrite N V K P)) : Prop :=
  ∀ E₁ w E₂, E = E₁ ++ w :: E₂ → ∀ n, Needs w n →
    n ∈ g.nodes ∨ Creates E₁ n ∨ drop n ∈ E ∨ ¬ Creates E n

/-! ## One node -/

/-- What a write does to the node at `n`. -/
def nodeStep (n : N) (v : Option V) : GraphWrite N V K P → Option V
  | put m f => if m = n then some (f (v.getD default)) else v
  | edit m f => if m = n then v.map f else v
  | drop m => if m = n then none else v
  | _ => v

theorem write_nodes (g : PropertyGraph N V K P) (w : GraphWrite N V K P) (n : N) :
    (g.write w).nodes[n]? = nodeStep n g.nodes[n]? w := by
  cases w <;> simp [write, nodeStep]

theorem writeAll_nodes (g : PropertyGraph N V K P) (E : List (GraphWrite N V K P)) (n : N) :
    (g.writeAll E).nodes[n]? = E.foldl (nodeStep n) g.nodes[n]? := by
  induction E generalizing g with
  | nil => rfl
  | cons w E ih => rw [writeAll_cons, ih, write_nodes]; rfl

/-- The contents function of a write at the node `n`. -/
def nodeContent (n : N) : GraphWrite N V K P → V → V
  | put m f => if m = n then f else fun v => v
  | edit m f => if m = n then f else fun v => v
  | _ => fun v => v

theorem nodeContent_overwrites {w : GraphWrite N V K P} (h : Overwriting w) (n : N) :
    Overwrites (nodeContent n w) := by
  cases w with
  | put m f => simp only [nodeContent]; split; exacts [h, Overwrites.id]
  | edit m f => simp only [nodeContent]; split; exacts [h, Overwrites.id]
  | drop m => exact Overwrites.id
  | putEdge k f => exact Overwrites.id
  | dropEdges k => exact Overwrites.id

/-- The contents function of a list of writes at the node `n`. -/
def nodeContents (n : N) (E : List (GraphWrite N V K P)) : V → V := runAll (E.map (nodeContent n))

theorem nodeContents_absorb {E Q : List (GraphWrite N V K P)} (hE : ∀ w ∈ E, Overwriting w)
    (hQ : ∀ w ∈ Q, w ∈ E) (n : N) (v : V) : nodeContents n E (nodeContents n Q v) = nodeContents n E v := by
  refine foldl_absorb ?_ ?_ v
  · intro f hf
    obtain ⟨w, hw, rfl⟩ := List.mem_map.1 hf
    exact nodeContent_overwrites (hE w hw) n
  · intro q hq
    obtain ⟨w, hw, rfl⟩ := List.mem_map.1 hq
    exact List.mem_map_of_mem (hQ w hw)

theorem foldl_nodeStep_some {E : List (GraphWrite N V K P)} {n : N} (hE : drop n ∉ E) (v : V) :
    E.foldl (nodeStep n) (some v) = some (nodeContents n E v) := by
  induction E generalizing v with
  | nil => rfl
  | cons w E ih =>
    rw [List.mem_cons, not_or] at hE
    have hw : nodeStep n (some v) w = some (nodeContent n w v) := by
      cases w with
      | put m f => simp only [nodeStep, nodeContent]; split <;> rfl
      | edit m f => simp only [nodeStep, nodeContent]; split <;> rfl
      | drop m => simp only [nodeStep, nodeContent]; rw [if_neg]; rintro rfl; exact hE.1 rfl
      | putEdge k f => rfl
      | dropEdges k => rfl
    rw [List.foldl_cons, hw, ih hE.2]; rfl

theorem foldl_nodeStep_none {E : List (GraphWrite N V K P)} {n : N} (hE : ¬ Creates E n) :
    E.foldl (nodeStep n) none = none := by
  induction E with
  | nil => rfl
  | cons w E ih =>
    have hw : nodeStep n none w = none := by
      cases w with
      | put m f =>
        simp only [nodeStep]; rw [if_neg]
        rintro rfl; exact hE ⟨f, by simp⟩
      | edit m f => simp [nodeStep]
      | drop m => simp [nodeStep]
      | putEdge k f => rfl
      | dropEdges k => rfl
    rw [List.foldl_cons, hw]
    exact ih fun ⟨f, hf⟩ => hE ⟨f, List.mem_cons_of_mem _ hf⟩

/-- A list that creates the node, and changes nothing of a blank one before, works as from a blank node. -/
theorem foldl_nodeStep_create {E : List (GraphWrite N V K P)} {n : N} (hdel : drop n ∉ E) (hc : Creates E n)
    (hg : ∀ E₁ w E₂, E = E₁ ++ w :: E₂ → Needs w n → Creates E₁ n) :
    E.foldl (nodeStep n) none = some (nodeContents n E default) := by
  induction E with
  | nil => obtain ⟨f, hf⟩ := hc; simp at hf
  | cons w E ih =>
    rw [List.mem_cons, not_or] at hdel
    by_cases hw : ∃ f, w = put n f
    · obtain ⟨f, rfl⟩ := hw
      have : nodeStep (P := P) (K := K) n none (put n f) = some (f default) := by simp [nodeStep]
      rw [List.foldl_cons, this, foldl_nodeStep_some hdel.2]
      simp [nodeContents, nodeContent, runAll]
    · have hne : ∀ f, put n f ≠ w := fun f h => hw ⟨f, h.symm⟩
      have hnil : ¬ Needs w n := fun hn => by
        obtain ⟨f, hf⟩ := hg [] w E rfl hn; simp at hf
      have hstep : nodeStep n none w = none := by
        cases w with
        | put m f =>
          simp only [nodeStep]; rw [if_neg]; rintro rfl; exact hne f rfl
        | edit m f => simp [nodeStep]
        | drop m => simp [nodeStep]
        | putEdge k f => rfl
        | dropEdges k => rfl
      have hcont : nodeContent n w default = default := by
        cases w with
        | put m f => simp only [nodeContent]; rw [if_neg]; rintro rfl; exact hne f rfl
        | edit m f =>
          simp only [nodeContent]; split
          · rename_i h; by_contra hf; exact hnil ⟨h, hf⟩
          · rfl
        | drop m => rfl
        | putEdge k f => rfl
        | dropEdges k => rfl
      have hc' : Creates E n := by
        obtain ⟨f, hf⟩ := hc
        exact ⟨f, (List.mem_cons.1 hf).resolve_left (hne f)⟩
      rw [List.foldl_cons, hstep, ih hdel.2 hc' ?_]
      · simp [nodeContents, runAll, hcont]
      · rintro E₁ u E₂ rfl hu
        obtain ⟨f, hf⟩ := hg (w :: E₁) u E₂ rfl hu
        exact ⟨f, (List.mem_cons.1 hf).resolve_left (hne f)⟩

/-- A list without a delete of the node leaves an absent node absent or creates it from some of its writes. -/
theorem foldl_nodeStep_absent {Q : List (GraphWrite N V K P)} {n : N} (hdel : drop n ∉ Q) :
    Q.foldl (nodeStep n) none = none ∨ Creates Q n ∧ ∃ Q', (∀ w ∈ Q', w ∈ Q) ∧
      Q.foldl (nodeStep n) none = some (nodeContents n Q' default) := by
  induction Q with
  | nil => exact .inl rfl
  | cons w Q ih =>
    rw [List.mem_cons, not_or] at hdel
    by_cases hw : ∃ f, w = put n f
    · obtain ⟨f, rfl⟩ := hw
      refine .inr ⟨⟨f, by simp⟩, put n f :: Q, fun w hw => hw, ?_⟩
      have : nodeStep (P := P) (K := K) n none (put n f) = some (f default) := by simp [nodeStep]
      rw [List.foldl_cons, this, foldl_nodeStep_some hdel.2]
      simp [nodeContents, nodeContent, runAll]
    · have hstep : nodeStep n none w = none := by
        cases w with
        | put m f => simp only [nodeStep]; rw [if_neg]; rintro rfl; exact hw ⟨f, rfl⟩
        | edit m f => simp [nodeStep]
        | drop m => simp [nodeStep]
        | putEdge k f => rfl
        | dropEdges k => rfl
      rw [List.foldl_cons, hstep]
      refine (ih hdel.2).imp_right ?_
      rintro ⟨⟨f, hf⟩, Q', hQ', he⟩
      exact ⟨⟨f, List.mem_cons_of_mem _ hf⟩, Q', fun w hw => List.mem_cons_of_mem _ (hQ' w hw), he⟩

/-- **The law at one node.** -/
theorem reapply_nodes {g : PropertyGraph N V K P} {E Q : List (GraphWrite N V K P)}
    (hE : ∀ w ∈ E, Overwriting w) (hQ : ∀ w ∈ Q, w ∈ E) (hg : Grounded g E) (n : N) :
    ((g.writeAll Q).writeAll E).nodes[n]? = (g.writeAll E).nodes[n]? := by
  rw [writeAll_nodes, writeAll_nodes, writeAll_nodes]
  by_cases hdel : drop n ∈ E
  · -- the last delete of the node forgets what was before it
    obtain ⟨E₁, E₂, rfl⟩ := List.append_of_mem hdel
    have hstep : ∀ v : Option V, nodeStep (P := P) (K := K) n v (drop n) = none := by simp [nodeStep]
    rw [List.foldl_append, List.foldl_append, List.foldl_cons, List.foldl_cons, hstep, hstep]
  have hdelQ : drop n ∉ Q := fun h => hdel (hQ _ h)
  cases hv : g.nodes[n]? with
  | some v =>
    rw [foldl_nodeStep_some hdelQ, foldl_nodeStep_some hdel, foldl_nodeStep_some hdel, nodeContents_absorb hE hQ]
  | none =>
    have hout : n ∉ g.nodes := by rw [ExtTreeMap.mem_iff_isSome_getElem?, hv]; simp
    by_cases hc : Creates E n
    · have hE0 := foldl_nodeStep_create hdel hc fun E₁ w E₂ h hw =>
        ((hg E₁ w E₂ h n hw).resolve_left hout).elim id fun h' => absurd hc (h'.resolve_left hdel)
      rcases foldl_nodeStep_absent hdelQ with h | ⟨-, Q', hQ', h⟩
      · rw [h]
      · rw [h, hE0, foldl_nodeStep_some hdel, nodeContents_absorb hE fun w hw => hQ w (hQ' w hw)]
    · rw [foldl_nodeStep_none fun ⟨f, hf⟩ => hc ⟨f, hQ _ hf⟩]

/-! ## One edge key -/

/-- What a write does to the edges at `k`, given whether the endpoints exist. -/
def edgeStep (k : K) (ends : Bool) (m : Multiset P) : GraphWrite N V K P → Multiset P
  | putEdge j f => if j = k then upsertAt ends default f m else m
  | dropEdges j => if j = k then 0 else m
  | drop n => if source k = n ∨ target k = n then 0 else m
  | _ => m

theorem write_edgesAt (g : PropertyGraph N V K P) (w : GraphWrite N V K P) (k : K) :
    (g.write w).edgesAt k = edgeStep k (g.hasEnds k) (g.edgesAt k) w := by
  cases w <;> simp [write, edgeStep]

/-- The writes after which no edge is left at `k`. -/
def Clears (k : K) (w : GraphWrite N V K P) : Prop :=
  w = dropEdges k ∨ w = drop (source k) ∨ w = drop (target k)

theorem write_edgesAt_clears {w : GraphWrite N V K P} {k : K} (h : Clears k w) (g : PropertyGraph N V K P) :
    (g.write w).edgesAt k = 0 := by
  rw [write_edgesAt]
  rcases h with rfl | rfl | rfl <;> simp [edgeStep]

theorem mem_writeAll (g : PropertyGraph N V K P) (E : List (GraphWrite N V K P)) (n : N) :
    n ∈ (g.writeAll E).nodes ↔ (E.foldl (nodeStep n) g.nodes[n]?).isSome := by
  rw [ExtTreeMap.mem_iff_isSome_getElem?, writeAll_nodes]

/-- A list that creates or deletes the node decides by itself whether it exists after. -/
theorem mem_writeAll_decided {E : List (GraphWrite N V K P)} {n : N} (h : Creates E n ∨ drop n ∈ E)
    (g g' : PropertyGraph N V K P) : n ∈ (g.writeAll E).nodes ↔ n ∈ (g'.writeAll E).nodes := by
  rw [mem_writeAll, mem_writeAll]
  generalize g.nodes[n]? = v
  generalize g'.nodes[n]? = v'
  induction E using List.reverseRecOn with
  | nil => rcases h with ⟨f, h⟩ | h <;> simp at h
  | append_singleton E w ih =>
    rw [List.foldl_append, List.foldl_append, List.foldl_cons, List.foldl_cons, List.foldl_nil, List.foldl_nil]
    have hrest : (∀ f, w ≠ put n f) → w ≠ drop n → Creates E n ∨ drop n ∈ E := by
      rintro hp hd
      rcases h with ⟨f, h⟩ | h <;> rw [List.mem_append, List.mem_singleton] at h
      · exact .inl ⟨f, h.resolve_right fun h => hp f h.symm⟩
      · exact .inr (h.resolve_right fun h => hd h.symm)
    cases w with
    | put m f =>
      by_cases hm : m = n
      · simp [nodeStep, hm]
      · simpa [nodeStep, hm] using ih (hrest (fun f h => hm (by injection h)) nofun)
    | edit m f =>
      by_cases hm : m = n <;> simpa [nodeStep, hm] using ih (hrest nofun nofun)
    | drop m =>
      by_cases hm : m = n
      · simp [nodeStep, hm]
      · simpa [nodeStep, hm] using ih (hrest nofun fun h => hm (by injection h))
    | putEdge k f => exact ih (hrest nofun nofun)
    | dropEdges k => exact ih (hrest nofun nofun)

theorem mem_writeAll_of_mem {E : List (GraphWrite N V K P)} {n : N} (hdel : drop n ∉ E)
    {g : PropertyGraph N V K P} (h : n ∈ g.nodes) : n ∈ (g.writeAll E).nodes := by
  obtain ⟨v, hv⟩ := Option.isSome_iff_exists.1 (ExtTreeMap.mem_iff_isSome_getElem?.1 h)
  rw [mem_writeAll, hv, foldl_nodeStep_some hdel]; rfl

theorem notMem_writeAll {E : List (GraphWrite N V K P)} {n : N} (hc : ¬ Creates E n)
    {g : PropertyGraph N V K P} (h : n ∉ g.nodes) : n ∉ (g.writeAll E).nodes := by
  have hv : g.nodes[n]? = none := by
    cases hv : g.nodes[n]? with
    | none => rfl
    | some v => exact absurd (ExtTreeMap.mem_iff_isSome_getElem?.2 (by rw [hv]; rfl)) h
  rw [mem_writeAll, hv, foldl_nodeStep_none hc]; simp

/-- Two runs of one list agree at `k` when they start so and see the same endpoints at each upsert of `k`. -/
theorem edgesAt_congr {g h : PropertyGraph N V K P} {k : K} {E : List (GraphWrite N V K P)}
    (hk : g.edgesAt k = h.edgesAt k)
    (hends : ∀ E₁ f E₂, E = E₁ ++ putEdge k f :: E₂ →
      (g.writeAll E₁).hasEnds k = (h.writeAll E₁).hasEnds k) :
    (g.writeAll E).edgesAt k = (h.writeAll E).edgesAt k := by
  induction E generalizing g h with
  | nil => exact hk
  | cons w E ih =>
    refine ih ?_ fun E₁ f E₂ he => hends (w :: E₁) f E₂ (by rw [he]; rfl)
    rw [write_edgesAt, write_edgesAt, hk]
    cases w with
    | putEdge j f =>
      by_cases hj : j = k
      · subst hj; rw [show g.hasEnds j = h.hasEnds j from hends [] f E rfl]
      · simp [edgeStep, hj]
    | put m f => rfl
    | edit m f => rfl
    | drop m => rfl
    | dropEdges j => rfl

/-- The contents function of a write at the edge key `k`. -/
def edgeContent (k : K) : GraphWrite N V K P → P → P
  | putEdge j f => if j = k then f else fun p => p
  | _ => fun p => p

/-- The contents function of a list of writes at the edge key `k`. -/
def edgeContents (k : K) (E : List (GraphWrite N V K P)) : P → P := runAll (E.map (edgeContent k))

theorem edgeContents_absorb {E Q : List (GraphWrite N V K P)} (hE : ∀ w ∈ E, Overwriting w)
    (hQ : ∀ w ∈ Q, w ∈ E) (k : K) (p : P) : edgeContents k E (edgeContents k Q p) = edgeContents k E p := by
  have hone : ∀ w : GraphWrite N V K P, Overwriting w → Overwrites (edgeContent k w) := by
    intro w hw
    cases w with
    | putEdge j f => simp only [edgeContent]; split; exacts [hw, Overwrites.id]
    | put m f => exact Overwrites.id
    | edit m f => exact Overwrites.id
    | drop m => exact Overwrites.id
    | dropEdges j => exact Overwrites.id
  refine foldl_absorb ?_ ?_ p
  · intro f hf
    obtain ⟨w, hw, rfl⟩ := List.mem_map.1 hf
    exact hone w (hE w hw)
  · intro q hq
    obtain ⟨w, hw, rfl⟩ := List.mem_map.1 hq
    exact List.mem_map_of_mem (hQ w hw)

/-- Some write of the list upserts the edge key. -/
def Upserts (E : List (GraphWrite N V K P)) (k : K) : Prop := ∃ f, putEdge k f ∈ E

theorem upsertAt_of_ne_zero {ends : Bool} {new : P} {f : P → P} {m : Multiset P} (h : m ≠ 0) :
    upsertAt ends new f m = m.map f := by
  unfold upsertAt; rw [if_neg]; exact fun hc => h (Multiset.card_eq_zero.1 hc.2)

/-- Without a clearing write, the edges that are there stay and take the contents of the list. -/
theorem writeAll_edgesAt_ne_zero {g : PropertyGraph N V K P} {k : K} {E : List (GraphWrite N V K P)}
    (hcl : ∀ w ∈ E, ¬ Clears k w) (hm : g.edgesAt k ≠ 0) :
    (g.writeAll E).edgesAt k = (g.edgesAt k).map (edgeContents k E) := by
  induction E generalizing g with
  | nil => exact (Multiset.map_id' _).symm
  | cons w E ih =>
    have hw : (g.write w).edgesAt k = (g.edgesAt k).map (edgeContent k w) := by
      rw [write_edgesAt]
      have := hcl w (by simp)
      cases w with
      | putEdge j f =>
        simp only [edgeStep, edgeContent]; split
        · exact upsertAt_of_ne_zero hm
        · simp
      | put m f => simp [edgeStep, edgeContent]
      | edit m f => simp [edgeStep, edgeContent]
      | drop m =>
        simp only [edgeStep, edgeContent, Multiset.map_id']
        rw [if_neg]
        rintro (rfl | rfl)
        · exact this (.inr (.inl rfl))
        · exact this (.inr (.inr rfl))
      | dropEdges j =>
        simp only [edgeStep, edgeContent, Multiset.map_id']
        rw [if_neg]; rintro rfl; exact this (.inl rfl)
    rw [writeAll_cons, ih (fun u hu => hcl u (List.mem_cons_of_mem _ hu)) (by rw [hw]; simpa using hm), hw,
      Multiset.map_map]
    rfl

/-- Without a clearing write, an empty edge key stays empty or gets one edge from some of the writes. -/
theorem writeAll_edgesAt_zero {g : PropertyGraph N V K P} {k : K} {Q : List (GraphWrite N V K P)}
    (hcl : ∀ w ∈ Q, ¬ Clears k w) (hm : g.edgesAt k = 0) :
    (g.writeAll Q).edgesAt k = 0 ∨ Upserts Q k ∧ ∃ Q', (∀ w ∈ Q', w ∈ Q) ∧
      (g.writeAll Q).edgesAt k = {edgeContents k Q' default} := by
  induction Q generalizing g with
  | nil => exact .inl hm
  | cons w Q ih =>
    have hcl' := fun u hu => hcl u (List.mem_cons_of_mem w hu)
    by_cases h0 : (g.write w).edgesAt k = 0
    · refine (ih hcl' h0).imp_right ?_
      rintro ⟨⟨f, hf⟩, Q', hQ', he⟩
      exact ⟨⟨f, List.mem_cons_of_mem _ hf⟩, Q', fun w hw => List.mem_cons_of_mem _ (hQ' w hw), he⟩
    · right
      have hw := h0
      rw [write_edgesAt, hm] at hw
      cases w with
      | putEdge j f =>
        by_cases hj : j = k
        · subst hj
          have h1 : (g.write (putEdge j f)).edgesAt j = {f default} := by
            rw [write_edgesAt, hm]
            simp only [edgeStep, if_true, upsertAt, Multiset.card_zero, and_true] at hw ⊢
            split
            · rfl
            · rename_i he; rw [if_neg he] at hw; simp at hw
          refine ⟨⟨f, by simp⟩, putEdge j f :: Q, fun w hw => hw, ?_⟩
          rw [writeAll_cons, writeAll_edgesAt_ne_zero hcl' h0, h1]
          simp [edgeContents, edgeContent, runAll]
        · simp [edgeStep, hj] at hw
      | put m f => simp [edgeStep] at hw
      | edit m f => simp [edgeStep] at hw
      | drop m => simp [edgeStep] at hw
      | dropEdges j => simp [edgeStep] at hw

/-- When both endpoints exist at each upsert of `k`, an empty edge key gets one edge from all the writes. -/
theorem writeAll_edgesAt_create {g : PropertyGraph N V K P} {k : K} {E : List (GraphWrite N V K P)}
    (hcl : ∀ w ∈ E, ¬ Clears k w) (hm : g.edgesAt k = 0) (hup : Upserts E k)
    (hends : ∀ E₁ f E₂, E = E₁ ++ putEdge k f :: E₂ → (g.writeAll E₁).hasEnds k = true) :
    (g.writeAll E).edgesAt k = {edgeContents k E default} := by
  induction E generalizing g with
  | nil => obtain ⟨f, hf⟩ := hup; simp at hf
  | cons w E ih =>
    have hcl' := fun u hu => hcl u (List.mem_cons_of_mem w hu)
    by_cases hw : ∃ f, w = putEdge k f
    · obtain ⟨f, rfl⟩ := hw
      have h1 : (g.write (putEdge k f)).edgesAt k = {f default} := by
        rw [write_edgesAt, hm, show g.hasEnds k = true from hends [] f E rfl]
        simp [edgeStep, upsertAt]
      rw [writeAll_cons, writeAll_edgesAt_ne_zero hcl' (by rw [h1]; simp), h1]
      simp [edgeContents, edgeContent, runAll]
    · have hcont : edgeContent k w = fun p => p := by
        cases w with
        | putEdge j f => simp only [edgeContent]; rw [if_neg]; rintro rfl; exact hw ⟨f, rfl⟩
        | put m f => rfl
        | edit m f => rfl
        | drop m => rfl
        | dropEdges j => rfl
      have hstep : (g.write w).edgesAt k = 0 := by
        rw [write_edgesAt, hm]
        cases w with
        | putEdge j f => simp only [edgeStep]; rw [if_neg]; rintro rfl; exact hw ⟨f, rfl⟩
        | put m f => rfl
        | edit m f => rfl
        | drop m => simp [edgeStep]
        | dropEdges j => simp [edgeStep]
      have hup' : Upserts E k := by
        obtain ⟨f, hf⟩ := hup
        exact ⟨f, (List.mem_cons.1 hf).resolve_left fun h => hw ⟨f, h.symm⟩⟩
      rw [writeAll_cons, ih hcl' hstep hup' fun E₁ f E₂ he => hends (w :: E₁) f E₂ (by rw [he]; rfl)]
      simp [edgeContents, runAll, hcont]

/-- The endpoints that an upsert of `k` meets do not depend on writes of the list applied before it, unless
the edges at `k` are cleared later. -/
theorem mem_ends_congr {g : PropertyGraph N V K P} {E Q L E₂ : List (GraphWrite N V K P)} {k : K} {f : P → P}
    (hQ : ∀ w ∈ Q, w ∈ E) (hg : Grounded g E) (he : E = L ++ putEdge k f :: E₂)
    (hcl : ∀ w ∈ E₂, ¬ Clears k w) {n : N} (hn : source k = n ∨ target k = n) :
    n ∈ (g.writeAll L).nodes ↔ n ∈ ((g.writeAll Q).writeAll L).nodes := by
  by_cases hdec : Creates L n ∨ drop n ∈ L
  · exact mem_writeAll_decided hdec g _
  rw [not_or] at hdec
  have hdel : drop n ∉ E := by
    rw [he, List.mem_append, List.mem_cons]
    rintro (h | h | h)
    · exact hdec.2 h
    · exact nomatch h
    · refine hcl _ h ?_
      rcases hn with rfl | rfl
      · exact .inr (.inl rfl)
      · exact .inr (.inr rfl)
  by_cases hin : n ∈ g.nodes
  · have h1 := mem_writeAll_of_mem hdec.2 hin
    have h2 := mem_writeAll_of_mem (fun h => hdel (hQ _ h)) hin
    exact ⟨fun _ => mem_writeAll_of_mem hdec.2 h2, fun _ => h1⟩
  · have hc : ¬ Creates E n := ((hg L _ E₂ he n hn).resolve_left hin).elim (fun h => absurd h hdec.1)
      fun h => h.resolve_left hdel
    have h1 := notMem_writeAll hdec.1 hin
    have h2 : n ∉ (g.writeAll Q).nodes := notMem_writeAll (fun ⟨f, hf⟩ => hc ⟨f, hQ _ hf⟩) hin
    exact ⟨fun h => absurd h h1, fun h => absurd h (notMem_writeAll hdec.1 h2)⟩

theorem hasEnds_iff {g : PropertyGraph N V K P} {k : K} :
    g.hasEnds k = true ↔ (source k : N) ∈ g.nodes ∧ (target k : N) ∈ g.nodes := by
  simp [hasEnds]

theorem hasEnds_congr {g : PropertyGraph N V K P} {E Q L E₂ : List (GraphWrite N V K P)} {k : K} {f : P → P}
    (hQ : ∀ w ∈ Q, w ∈ E) (hg : Grounded g E) (he : E = L ++ putEdge k f :: E₂)
    (hcl : ∀ w ∈ E₂, ¬ Clears k w) :
    (g.writeAll L).hasEnds k = ((g.writeAll Q).writeAll L).hasEnds k := by
  rw [Bool.eq_iff_iff, hasEnds_iff, hasEnds_iff, mem_ends_congr hQ hg he hcl (.inl rfl),
    mem_ends_congr hQ hg he hcl (.inr rfl)]

/-- A list that never clears `k`, and upserts it, finds both endpoints at each upsert once they were there. -/
theorem hasEnds_of_grounded {g : PropertyGraph N V K P} {E L E₂ : List (GraphWrite N V K P)} {k : K} {f : P → P}
    (hg : Grounded g E) (he : E = L ++ putEdge k f :: E₂) (hcl : ∀ w ∈ E, ¬ Clears k w)
    (hs : (source k : N) ∈ g.nodes ∨ Creates E (source k))
    (ht : (target k : N) ∈ g.nodes ∨ Creates E (target k)) : (g.writeAll L).hasEnds k = true := by
  have hone : ∀ n : N, source k = n ∨ target k = n → (n ∈ g.nodes ∨ Creates E n) → n ∈ (g.writeAll L).nodes := by
    intro n hn hin
    have hdel : drop n ∉ E := by
      rcases hn with rfl | rfl
      · exact fun h => hcl _ h (.inr (.inl rfl))
      · exact fun h => hcl _ h (.inr (.inr rfl))
    have hdelL : drop n ∉ L := fun h => hdel (by rw [he]; simp [h])
    by_cases hmem : n ∈ g.nodes
    · exact mem_writeAll_of_mem hdelL hmem
    · have hc : Creates E n := hin.resolve_left hmem
      have hL : Creates L n := ((hg L _ E₂ he n hn).resolve_left hmem).elim id
        fun h => absurd hc (h.resolve_left hdel)
      obtain ⟨f', hf'⟩ := hL
      obtain ⟨A, B, rfl⟩ := List.append_of_mem hf'
      rw [writeAll_append, writeAll_cons]
      refine mem_writeAll_of_mem (fun h => hdelL (by simp [h])) ?_
      rw [ExtTreeMap.mem_iff_isSome_getElem?, write_nodes]; simp [nodeStep]
  exact hasEnds_iff.2 ⟨hone _ (.inl rfl) hs, hone _ (.inr rfl) ht⟩

/-- **The law at one edge key.** -/
theorem reapply_edgesAt {g : PropertyGraph N V K P} {E Q : List (GraphWrite N V K P)}
    (hE : ∀ w ∈ E, Overwriting w) (hQ : ∀ w ∈ Q, w ∈ E) (hg : Grounded g E) (k : K) :
    ((g.writeAll Q).writeAll E).edgesAt k = (g.writeAll E).edgesAt k := by
  by_cases hcl : ∀ w ∈ E, ¬ Clears k w
  · have hclQ : ∀ w ∈ Q, ¬ Clears k w := fun w hw => hcl w (hQ w hw)
    by_cases hm : g.edgesAt k = 0
    · rcases writeAll_edgesAt_zero hclQ hm with h0 | ⟨⟨f, hf⟩, Q', hQ', h1⟩
      · refine edgesAt_congr (h0.trans hm.symm) fun E₁ f E₂ he => ?_
        exact (hasEnds_congr hQ hg he fun w hw => hcl w (by rw [he]; simp [hw])).symm
      · have hne : (g.writeAll Q).edgesAt k ≠ 0 := by rw [h1]; simp
        have hin : ∀ n : N, n ∈ (g.writeAll Q).nodes → n ∈ g.nodes ∨ Creates E n := by
          intro n hn
          by_contra hc
          rw [not_or] at hc
          exact notMem_writeAll (fun ⟨f, hf⟩ => hc.2 ⟨f, hQ _ hf⟩) hc.1 hn
        have hs := hin (source k) (by_contra fun h => hne (edgesAt_eq_zero_of_source h))
        have ht := hin (target k) (by_contra fun h => hne (edgesAt_eq_zero_of_target h))
        rw [writeAll_edgesAt_ne_zero hcl hne, h1, Multiset.map_singleton,
          edgeContents_absorb hE fun w hw => hQ w (hQ' w hw),
          writeAll_edgesAt_create hcl hm ⟨f, hQ _ hf⟩ fun E₁ f E₂ he => hasEnds_of_grounded hg he hcl hs ht]
    · have hQm := writeAll_edgesAt_ne_zero hclQ hm
      rw [writeAll_edgesAt_ne_zero hcl hm, writeAll_edgesAt_ne_zero hcl (by rw [hQm]; simpa using hm), hQm,
        Multiset.map_map]
      exact Multiset.map_congr rfl fun p _ => edgeContents_absorb hE hQ k p
  · -- the last clearing write forgets what was before it; after it both runs see the same endpoints
    have hlast : ∃ E₁ w E₂, E = E₁ ++ w :: E₂ ∧ Clears k w ∧ ∀ u ∈ E₂, ¬ Clears k u := by
      clear hE hQ hg
      induction E with
      | nil => exact absurd (fun w hw => absurd hw (by simp)) hcl
      | cons w E ih =>
        by_cases hE' : ∀ u ∈ E, ¬ Clears k u
        · refine ⟨[], w, E, rfl, ?_, hE'⟩
          by_contra hw
          exact hcl fun u hu => (List.mem_cons.1 hu).elim (fun h => h ▸ hw) (hE' u)
        · obtain ⟨E₁, u, E₂, rfl, h⟩ := ih hE'
          exact ⟨w :: E₁, u, E₂, rfl, h⟩
    obtain ⟨E₁, w, E₂, rfl, hw, hE₂⟩ := hlast
    rw [writeAll_append, writeAll_cons, writeAll_append, writeAll_cons]
    refine edgesAt_congr ?_ fun L f L₂ he => ?_
    · rw [write_edgesAt_clears hw, write_edgesAt_clears hw]
    · have hsplit : E₁ ++ w :: E₂ = (E₁ ++ w :: L) ++ putEdge k f :: L₂ := by rw [he]; simp
      have := hasEnds_congr hQ hg hsplit fun u hu => hE₂ u (by rw [he]; simp [hu])
      rw [writeAll_append, writeAll_cons, writeAll_append, writeAll_cons] at this
      exact this.symm

/-- **Applying a grounded list after any of its own writes is applying it once.** -/
theorem reapply [DecidableEq P] {g : PropertyGraph N V K P} {E Q : List (GraphWrite N V K P)}
    (hE : ∀ w ∈ E, Overwriting w) (hQ : ∀ w ∈ Q, w ∈ E) (hg : Grounded g E) :
    (g.writeAll Q).writeAll E = g.writeAll E :=
  ext_at (reapply_nodes hE hQ hg) (reapply_edgesAt hE hQ hg)

end PropertyGraph
