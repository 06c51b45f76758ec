import PolicySystem.Gateway.Query

/-!
# The applier

Decoded log entries become `UNWIND` queries (`graph_gateway/applier.py`): consecutive entries of one
operation make a run, a run of node upserts is cut where a node repeats, each run is regrouped by label
and cut into batches, and the caller is told after each completed run.

* `runs_flatten`, `mem_runs`: the runs are the entries in order, each of one operation;
* `applyRun_eq`: **the queries of a run leave what its entries leave one at a time**, whatever the batch size;
* `applyDecoded_eq_applyAll`: so do the queries of any sequence of entries.
-/

namespace PolicySystem

/-- A decoded primitive with its log position. -/
abbrev Positioned := ℕ × Primitive

/-- `_run_key`: what consecutive entries must share to apply together. -/
def runKey : Primitive → List String
  | .upsertNode .. => ["upsert_node"]
  | .mergeProperty node _ => ["merge_property", node.label]
  | .deleteNode node => ["delete_node", node.label]
  | .removeProperty node keys => "remove_property" :: node.label :: keys
  | .upsertEdge edge _ => ["upsert_edge", edge.type, edge.source.label, edge.target.label]
  | .deleteEdge edge => ["delete_edge", edge.type, edge.source.label, edge.target.label]
  | .stampEdgeIdentity edge => ["stamp_edge_identity", edge.type, edge.source.label, edge.target.label]

/-- `_label_of`: only node upserts mix labels in one run. -/
def labelOf : Primitive → String
  | .upsertNode node _ _ => node.label
  | _ => ""

/-- `_node_of`, asked of node upserts only. -/
def nodeOf : Primitive → Option NodeRef
  | .upsertNode node _ _ => some node
  | _ => none

/-- `_split_at_repeated_nodes`: cut before the first row that repeats a node of the current part. -/
def splitAtRepeatedNodes (part : List Positioned) (seen : List (Option NodeRef)) :
    List Positioned → List (List Positioned)
  | [] => [part]
  | item :: run =>
    if nodeOf item.2 ∈ seen then part :: splitAtRepeatedNodes [item] [nodeOf item.2] run
    else splitAtRepeatedNodes (part ++ [item]) (nodeOf item.2 :: seen) run

def isUpsertNode : Primitive → Bool
  | .upsertNode .. => true
  | _ => false

/-- The runs of consecutive entries of one operation: node upserts are cut where a node repeats. -/
def partsOf (run : List Positioned) : List (List Positioned) :=
  if run.head?.any (isUpsertNode ·.2) then splitAtRepeatedNodes [] [] run else [run]

/-- `_runs`. -/
def runs (decoded : List Positioned) : List (List Positioned) :=
  (decoded.splitBy fun a b => runKey a.2 == runKey b.2).flatMap partsOf

/-- `by_label.setdefault(label, []).append(item)`. -/
def appendUnder (label : String) (item : Positioned) : List (String × List Positioned) → List (String × List Positioned)
  | [] => [(label, [item])]
  | (l, members) :: rest =>
    if l = label then (l, members ++ [item]) :: rest else (l, members) :: appendUnder label item rest

/-- `members[start : start + size] for start in range(0, len(members), size)`. -/
def slices {α : Type} (size : ℕ) (members : List α) : List (List α) :=
  (List.range ((members.length + size - 1) / size)).map fun i => (members.drop (i * size)).take size

/-- `_chunks_of`: a run grouped by label, `batchSize` rows at most per query. -/
def chunksOf (run : List Positioned) (batchSize : ℕ) : List (List Positioned) :=
  (run.foldl (fun groups item => appendUnder (labelOf item.2) item groups) []).flatMap fun group =>
    slices batchSize group.2

/-- `apply_decoded`, over whatever runs a query and whatever is told of each completed run. -/
def applyDecoded {m : Type → Type} [Monad m] (query : Query → m Unit) (onRunApplied : ℕ → m Unit)
    (batchSize : ℕ) (decoded : List Positioned) : m Unit :=
  (runs decoded).forM fun run => do
    (chunksOf run batchSize).forM fun chunk =>
      match chunk.map Prod.snd with
      | [] => pure ()
      | first :: rest => query (chunkQuery first (first :: rest))
    match run.getLast? with
    | some last => onRunApplied last.1
    | none => pure ()

/-! ## The runs -/

theorem splitAtRepeatedNodes_flatten (part : List Positioned) (seen) (run : List Positioned) :
    (splitAtRepeatedNodes part seen run).flatten = part ++ run := by
  induction run generalizing part seen with
  | nil => simp [splitAtRepeatedNodes]
  | cons item run ih =>
    rw [splitAtRepeatedNodes]
    split
    · rw [List.flatten_cons, ih]; simp
    · rw [ih]; simp

theorem partsOf_flatten (run : List Positioned) : (partsOf run).flatten = run := by
  unfold partsOf
  split
  · rw [splitAtRepeatedNodes_flatten]; rfl
  · simp

theorem flatMap_partsOf_flatten (groups : List (List Positioned)) :
    (groups.flatMap partsOf).flatten = groups.flatten := by
  induction groups with
  | nil => rfl
  | cons group groups ih => rw [List.flatMap_cons, List.flatten_append, partsOf_flatten, ih, List.flatten_cons]

theorem runs_flatten (decoded : List Positioned) : (runs decoded).flatten = decoded := by
  rw [runs, flatMap_partsOf_flatten, List.flatten_splitBy]

/-- **A run** holds at least one entry, all of one operation, and no node upserted twice. -/
structure IsRun (ps : List Primitive) : Prop where
  nonempty : ps ≠ []
  sameKey : ∀ p ∈ ps, ∀ q ∈ ps, runKey p = runKey q
  nodup : ps.head?.any isUpsertNode → (ps.map nodeOf).Nodup

theorem isUpsertNode_iff {p : Primitive} : isUpsertNode p = true ↔ runKey p = ["upsert_node"] := by
  cases p <;> simp [isUpsertNode, runKey]

theorem splitAtRepeatedNodes_nodup {part : List Positioned} {seen : List (Option NodeRef)}
    (hseen : ∀ x, x ∈ seen ↔ x ∈ part.map (nodeOf ·.2)) (hpart : (part.map (nodeOf ·.2)).Nodup)
    (run : List Positioned) : ∀ part' ∈ splitAtRepeatedNodes part seen run, (part'.map (nodeOf ·.2)).Nodup := by
  induction run generalizing part seen with
  | nil => intro part' h; rw [splitAtRepeatedNodes, List.mem_singleton] at h; exact h ▸ hpart
  | cons item run ih =>
    intro part' h
    rw [splitAtRepeatedNodes] at h
    split at h
    · rcases List.mem_cons.1 h with rfl | h
      · exact hpart
      · exact ih (by simp) (by simp) part' h
    · rename_i hnot
      refine ih (fun x => ?_) ?_ part' h
      · simp [hseen x, or_comm]
      · rw [List.map_append, List.nodup_append]
        refine ⟨hpart, by simp, fun a ha b hb => ?_⟩
        rw [List.map_singleton, List.mem_singleton] at hb
        rintro rfl
        exact hnot (hb ▸ (hseen a).2 ha)

theorem splitAtRepeatedNodes_ne_nil {part : List Positioned} {seen : List (Option NodeRef)} {run : List Positioned}
    (h : part ≠ [] ∨ seen = [] ∧ run ≠ []) : ∀ part' ∈ splitAtRepeatedNodes part seen run, part' ≠ [] := by
  induction run generalizing part seen with
  | nil => intro part' hp; rw [splitAtRepeatedNodes, List.mem_singleton] at hp; subst hp; simpa using h
  | cons item run ih =>
    intro part' hp
    rw [splitAtRepeatedNodes] at hp
    split at hp
    · rename_i hin
      rcases List.mem_cons.1 hp with rfl | hp
      · exact h.resolve_right fun hs => by rw [hs.1] at hin; simp at hin
      · exact ih (.inl (by simp)) part' hp
    · exact ih (.inl (by simp)) part' hp

theorem sameKey_of_isChain {group : List Positioned}
    (hchain : group.IsChain fun a b => (runKey a.2 == runKey b.2) = true) :
    ∀ a ∈ group, ∀ b ∈ group, runKey a.2 = runKey b.2 := by
  simp only [beq_iff_eq] at hchain
  have hpair : group.Pairwise fun a b => runKey a.2 = runKey b.2 :=
    @List.IsChain.pairwise _ _ _ ⟨fun h h' => h.trans h'⟩ hchain
  have hsymm : Std.Symm fun a b : Positioned => runKey a.2 = runKey b.2 := ⟨fun _ _ h => h.symm⟩
  intro a ha b hb
  refine hpair.forall_of_forall ?_ ha hb
  exact fun _ _ => rfl

theorem mem_runs {decoded run : List Positioned} (h : run ∈ runs decoded) : IsRun (run.map Prod.snd) := by
  obtain ⟨group, hgroup, hrun⟩ := List.mem_flatMap.1 h
  have hne : group ≠ [] := List.ne_nil_of_mem_splitBy hgroup
  have hkey := sameKey_of_isChain (List.isChain_of_mem_splitBy hgroup)
  unfold partsOf at hrun
  have hsub : ∀ a ∈ run, a ∈ group := by
    split at hrun
    · intro a ha
      have := List.mem_flatten.2 ⟨run, hrun, ha⟩
      rwa [splitAtRepeatedNodes_flatten] at this
    · rw [List.mem_singleton] at hrun; subst hrun; exact fun a ha => ha
  refine ⟨?_, ?_, ?_⟩
  · rw [Ne, List.map_eq_nil_iff]
    split at hrun
    · exact splitAtRepeatedNodes_ne_nil (.inr ⟨rfl, hne⟩) run hrun
    · rw [List.mem_singleton] at hrun; subst hrun; exact hne
  · intro p hp q hq
    obtain ⟨a, ha, rfl⟩ := List.mem_map.1 hp
    obtain ⟨b, hb, rfl⟩ := List.mem_map.1 hq
    exact hkey a (hsub a ha) b (hsub b hb)
  · intro hup
    rw [List.map_map]
    split at hrun
    · exact splitAtRepeatedNodes_nodup (by simp) (by simp) group run hrun
    · rename_i hnot
      rw [List.mem_singleton] at hrun; subst hrun
      cases run with
      | nil => exact absurd rfl hne
      | cons a run => exact absurd hup (by simpa using hnot)

/-- After its first part a cut goes on as it would from there. -/
theorem splitAtRepeatedNodes_tail {part : List Positioned} {seen : List (Option NodeRef)} {run first : List Positioned}
    {rest : List (List Positioned)} (h : splitAtRepeatedNodes part seen run = first :: rest) (hrest : rest ≠ []) :
    ∃ item run', part ++ run = first ++ item :: run' ∧ rest = splitAtRepeatedNodes [] [] (item :: run') := by
  induction run generalizing part seen with
  | nil => cases h; exact absurd rfl hrest
  | cons item run ih =>
    rw [splitAtRepeatedNodes] at h
    split at h
    · cases h
      exact ⟨item, run, rfl, by simp [splitAtRepeatedNodes]⟩
    · obtain ⟨item', run', he, hr⟩ := ih h
      exact ⟨item', run', by rw [← he]; simp, hr⟩

/-- **The runs after the first are the runs of the entries after it.** -/
theorem runs_tail {decoded run : List Positioned} {rest : List (List Positioned)} (h : runs decoded = run :: rest) :
    runs rest.flatten = rest := by
  rw [runs] at h
  obtain ⟨-, hne, hchain, hlink⟩ := List.splitBy_eq_iff.1
    (rfl : (decoded.splitBy fun a b => runKey a.2 == runKey b.2) = _)
  generalize decoded.splitBy (fun a b => runKey a.2 == runKey b.2) = groups at h hne hchain hlink
  cases groups with
  | nil => cases h
  | cons g groups =>
    rw [List.flatMap_cons] at h
    cases hparts : partsOf g with
    | nil =>
      -- a group has a part at least
      have := partsOf_flatten g
      rw [hparts] at this
      exact absurd (this ▸ List.mem_cons_self) hne
    | cons first parts =>
      rw [hparts, List.cons_append, List.cons.injEq] at h
      obtain ⟨rfl, rfl⟩ := h
      rw [List.flatten_append, flatMap_partsOf_flatten]
      by_cases hcut : parts = []
      · rw [hcut, List.flatten_nil, List.nil_append, runs, List.splitBy_flatten
          (fun hm => hne (List.mem_cons_of_mem _ hm)) (fun m hm => hchain m (List.mem_cons_of_mem _ hm)) hlink.tail]
        rfl
      · -- the group was cut: its second part opens the group of what is left
        have hup : g.head?.any (isUpsertNode ·.2) = true := by
          by_contra hno
          rw [partsOf, if_neg hno] at hparts
          cases hparts
          exact hcut rfl
        rw [partsOf, if_pos hup] at hparts
        obtain ⟨item, run', he, rfl⟩ := splitAtRepeatedNodes_tail hparts hcut
        rw [List.nil_append] at he
        have hg := hchain g (by simp)
        have hitem : isUpsertNode item.2 = true := by
          cases g with
          | nil => simp at hup
          | cons x g =>
            have hx : isUpsertNode x.2 = true := by simpa using hup
            rw [isUpsertNode_iff] at hx ⊢
            rw [← hx]
            exact sameKey_of_isChain hg item (by rw [he]; simp) x (by simp)
        have hparts' : partsOf (item :: run') = splitAtRepeatedNodes [] [] (item :: run') := by
          rw [partsOf, if_pos (by simpa using hitem)]
        have hsplit : ((item :: run' ++ groups.flatten).splitBy fun a b => runKey a.2 == runKey b.2) =
            (item :: run') :: groups := by
          rw [← List.flatten_cons]
          refine List.splitBy_flatten ?_ ?_ ?_
          · intro hm
            rcases List.mem_cons.1 hm with hm | hm
            · cases hm
            · exact hne (List.mem_cons_of_mem _ hm)
          · intro m hm
            rcases List.mem_cons.1 hm with rfl | hm
            · rw [he] at hg; exact hg.right_of_append
            · exact hchain m (List.mem_cons_of_mem _ hm)
          · rw [List.isChain_cons] at hlink ⊢
            refine ⟨fun y hy => ?_, hlink.2⟩
            obtain ⟨hx, hy', hr⟩ := hlink.1 y hy
            refine ⟨by simp, hy', ?_⟩
            have hlast : g.getLast hx = (item :: run').getLast (by simp) := by
              simp only [he, List.getLast_append_of_ne_nil _ (List.cons_ne_nil item run')]
            rwa [← hlast]
        rw [splitAtRepeatedNodes_flatten, List.nil_append, runs, hsplit, List.flatMap_cons, hparts']

/-! ## One batch -/

/-- Rows that each do what their primitive does leave what the primitives leave one at a time. -/
theorem foldl_rows {ρ : Type} {toRow : Primitive → Option ρ} {step : Graph → ρ → Graph} {chunk : List Primitive}
    (h : ∀ p ∈ chunk, ∃ r, toRow p = some r ∧ ∀ g, step g r = applyOne g p) (g : Graph) :
    (chunk.filterMap toRow).foldl step g = applyAll g chunk := by
  induction chunk generalizing g with
  | nil => rfl
  | cons p chunk ih =>
    obtain ⟨r, hr, hstep⟩ := h p (by simp)
    rw [List.filterMap_cons_some hr, List.foldl_cons, hstep, ih fun q hq => h q (List.mem_cons_of_mem _ hq)]
    rfl

/-- Upserts of distinct nodes of one label: each row meets its node as the query found it, so its `coalesce`
reads what is stored. -/
theorem upsertNodeRows_run {label : String} {chunk : List Primitive}
    (hup : ∀ p ∈ chunk, ∃ id q e, p = .upsertNode ⟨label, id⟩ q e) (hnodup : (chunk.map nodeOf).Nodup) (before g : Graph)
    (hg : ∀ p ∈ chunk, ∀ n, nodeOf p = some n → g.nodes[n]? = before.nodes[n]?) :
    (upsertNodeRows chunk).foldl (upsertNodeRow label before) g = applyAll g chunk := by
  induction chunk generalizing g with
  | nil => rfl
  | cons p chunk ih =>
    obtain ⟨id, q, e, rfl⟩ := hup p (by simp)
    rw [List.map_cons, List.nodup_cons] at hnodup
    have hrow : upsertNodeRow label before g ⟨id, q, e⟩ = applyOne g (.upsertNode ⟨label, id⟩ q e) := by
      rw [applyOne_eq_write rfl]; exact upsertNodeRow_eq (hg _ List.mem_cons_self _ rfl)
    show (upsertNodeRows chunk).foldl (upsertNodeRow label before) (upsertNodeRow label before g ⟨id, q, e⟩) = _
    rw [hrow, ih (fun p hp => hup p (List.mem_cons_of_mem _ hp)) hnodup.2]
    · rfl
    · intro p hp n hn
      have hne : (⟨label, id⟩ : NodeRef) ≠ n := by
        rintro rfl; exact hnodup.1 (List.mem_map.2 ⟨p, hp, hn⟩)
      rw [applyOne_eq_write rfl, PropertyGraph.write_nodes]
      simpa [PropertyGraph.nodeStep, hne] using hg p (List.mem_cons_of_mem _ hp) n hn

/-- **One query leaves what its members leave one at a time**: one operation, one label, no node twice. -/
theorem chunkQuery_run {first : Primitive} {chunk : List Primitive} (hkey : ∀ p ∈ chunk, runKey p = runKey first)
    (hlabel : ∀ p ∈ chunk, labelOf p = labelOf first)
    (hnodup : isUpsertNode first → (chunk.map nodeOf).Nodup) (g : Graph) :
    (chunkQuery first chunk).run g = applyAll g chunk := by
  cases first with
  | upsertNode node props emb =>
    refine upsertNodeRows_run (fun p hp => ?_) (hnodup rfl) g g fun _ _ _ _ => rfl
    have hk := hkey p hp
    have hl := hlabel p hp
    cases p with
    | upsertNode n q e => obtain ⟨l, i⟩ := n; cases show l = node.label from hl; exact ⟨i, q, e, rfl⟩
    | _ => simp [runKey] at hk
  | mergeProperty node props =>
    refine foldl_rows (fun p hp => ?_) g
    have hk := hkey p hp
    cases p with
    | mergeProperty n q =>
      have hl : n.label = node.label := by simpa [runKey] using hk
      obtain ⟨l, i⟩ := n; cases hl; exact ⟨_, rfl, fun _ => rfl⟩
    | _ => simp [runKey] at hk
  | removeProperty node keys =>
    refine foldl_rows (fun p hp => ?_) g
    have hk := hkey p hp
    cases p with
    | removeProperty n ks =>
      obtain ⟨hl, rfl⟩ : n.label = node.label ∧ ks = keys := by simpa [runKey] using hk
      obtain ⟨l, i⟩ := n; cases hl; exact ⟨_, rfl, fun _ => rfl⟩
    | _ => simp [runKey] at hk
  | deleteNode node =>
    refine foldl_rows (fun p hp => ?_) g
    have hk := hkey p hp
    cases p with
    | deleteNode n =>
      have hl : n.label = node.label := by simpa [runKey] using hk
      obtain ⟨l, i⟩ := n; cases hl; exact ⟨_, rfl, fun _ => rfl⟩
    | _ => simp [runKey] at hk
  | upsertEdge edge props =>
    refine foldl_rows (fun p hp => ?_) g
    have hk := hkey p hp
    cases p with
    | upsertEdge e q =>
      have ht : e.text = edge.text := by simpa [runKey, EdgeBase.text] using hk
      refine ⟨_, rfl, fun g => ?_⟩
      rw [← ht]; rfl
    | _ => simp [runKey] at hk
  | deleteEdge edge =>
    refine foldl_rows (fun p hp => ?_) g
    have hk := hkey p hp
    cases p with
    | deleteEdge e =>
      have ht : e.text = edge.text := by simpa [runKey, EdgeBase.text] using hk
      refine ⟨_, rfl, fun g => ?_⟩
      rw [← ht]; rfl
    | _ => simp [runKey] at hk
  | stampEdgeIdentity edge =>
    refine foldl_rows (fun p hp => ?_) g
    have hk := hkey p hp
    cases p with
    | stampEdgeIdentity e =>
      have ht : e.text = edge.text := by simpa [runKey, EdgeBase.text] using hk
      refine ⟨_, rfl, fun g => ?_⟩
      rw [← ht]; rfl
    | _ => simp [runKey] at hk

/-! ## The batches of a run -/

theorem slices_flatten {α : Type} {size : ℕ} (hsize : 1 ≤ size) (xs : List α) : (slices size xs).flatten = xs := by
  have htake : ∀ m, ((List.range m).map fun i => (xs.drop (i * size)).take size).flatten = xs.take (m * size) := by
    intro m
    induction m with
    | zero => simp
    | succ m ih =>
      rw [List.range_succ, List.map_append, List.flatten_append, ih, Nat.succ_mul, List.take_add]
      simp
  rw [slices, htake, List.take_of_length_le]
  have := Nat.lt_div_mul_add (a := xs.length + size - 1) hsize
  omega

/-- What `by_label` holds: the items in some order, each under its own label. -/
theorem appendUnder_flatten (label : String) (item : Positioned) (groups : List (String × List Positioned)) :
    ((appendUnder label item groups).flatMap Prod.snd).Perm (item :: groups.flatMap Prod.snd) := by
  induction groups with
  | nil => simp [appendUnder]
  | cons group rest ih =>
    rw [appendUnder]
    split
    · simp only [List.flatMap_cons, List.append_assoc]
      exact List.perm_middle
    · simp only [List.flatMap_cons]
      exact (ih.append_left _).trans List.perm_middle

theorem appendUnder_label {label : String} {item : Positioned} {groups : List (String × List Positioned)}
    (hitem : labelOf item.2 = label) (h : ∀ group ∈ groups, ∀ x ∈ group.2, labelOf x.2 = group.1) :
    ∀ group ∈ appendUnder label item groups, ∀ x ∈ group.2, labelOf x.2 = group.1 := by
  induction groups with
  | nil =>
    intro g hg x hx
    rw [appendUnder, List.mem_singleton] at hg; subst hg
    rw [List.mem_singleton] at hx; subst hx; exact hitem
  | cons group rest ih =>
    rw [appendUnder]
    split
    · rename_i hl
      intro g hg x hx
      rcases List.mem_cons.1 hg with rfl | hg
      · rcases List.mem_append.1 hx with hx | hx
        · exact h group (by simp) x hx
        · rw [List.mem_singleton] at hx; subst hx; exact hitem.trans hl.symm
      · exact h g (List.mem_cons_of_mem _ hg) x hx
    · intro g hg
      rcases List.mem_cons.1 hg with rfl | hg
      · exact h _ (by simp)
      · exact ih (fun g hg => h g (List.mem_cons_of_mem _ hg)) g hg

/-- The groups of a run, by label. -/
def byLabel (run : List Positioned) : List (String × List Positioned) :=
  run.foldl (fun groups item => appendUnder (labelOf item.2) item groups) []

theorem chunksOf_eq (run : List Positioned) (batchSize : ℕ) :
    chunksOf run batchSize = (byLabel run).flatMap fun group => slices batchSize group.2 := rfl

theorem byLabel_perm (run : List Positioned) : ((byLabel run).flatMap Prod.snd).Perm run := by
  have hgen : ∀ groups : List (String × List Positioned), ((run.foldl (fun groups item =>
      appendUnder (labelOf item.2) item groups) groups).flatMap Prod.snd).Perm (groups.flatMap Prod.snd ++ run) := by
    induction run with
    | nil => intro groups; simp
    | cons item run ih =>
      intro groups
      rw [List.foldl_cons]
      refine (ih _).trans ?_
      refine ((appendUnder_flatten _ item groups).append_right run).trans ?_
      exact (@List.perm_middle _ item (groups.flatMap Prod.snd) run).symm
  simpa [byLabel] using hgen []

theorem byLabel_label (run : List Positioned) :
    ∀ group ∈ byLabel run, ∀ x ∈ group.2, labelOf x.2 = group.1 := by
  have hgen : ∀ groups : List (String × List Positioned), (∀ group ∈ groups, ∀ x ∈ group.2, labelOf x.2 = group.1) →
      ∀ group ∈ run.foldl (fun groups item => appendUnder (labelOf item.2) item groups) groups,
        ∀ x ∈ group.2, labelOf x.2 = group.1 := by
    induction run with
    | nil => exact fun groups h => h
    | cons item run ih => exact fun groups h => ih _ (appendUnder_label rfl h)
  exact hgen [] (by simp)

/-- A run of one label is one group, in order. -/
theorem byLabel_single {run : List Positioned} {label : String} (hne : run ≠ [])
    (h : ∀ x ∈ run, labelOf x.2 = label) : byLabel run = [(label, run)] := by
  cases run with
  | nil => exact absurd rfl hne
  | cons item run =>
    have hgen : ∀ members : List Positioned, run.foldl (fun groups item => appendUnder (labelOf item.2) item groups)
        [(label, members)] = [(label, members ++ run)] := by
      have h' := fun x hx => h x (List.mem_cons_of_mem item hx)
      clear h hne
      induction run with
      | nil => simp
      | cons y run ih =>
        intro members
        rw [List.foldl_cons, h' y (by simp)]
        simp only [appendUnder, if_true]
        rw [ih (fun x hx => h' x (List.mem_cons_of_mem _ hx)), List.append_assoc]; rfl
    simp only [byLabel, List.foldl_cons, h item (by simp), appendUnder]
    exact hgen [item]

/-- `_apply_chunk` on a graph. -/
def applyChunk (g : Graph) (chunk : List Primitive) : Graph :=
  match chunk with
  | [] => g
  | first :: rest => (chunkQuery first (first :: rest)).run g

/-- The queries of one run, in order. -/
def applyRun (batchSize : ℕ) (g : Graph) (run : List Positioned) : Graph :=
  (chunksOf run batchSize).foldl (fun g chunk => applyChunk g (chunk.map Prod.snd)) g

/-- A batch of a run: some of its entries, under one label. -/
theorem chunksOf_mem {run : List Positioned} {batchSize : ℕ} (hb : 1 ≤ batchSize) {chunk : List Positioned}
    (h : chunk ∈ chunksOf run batchSize) :
    ∃ group ∈ byLabel run, chunk.Sublist group.2 := by
  obtain ⟨group, hg, hc⟩ := List.mem_flatMap.1 h
  refine ⟨group, hg, ?_⟩
  have := List.sublist_flatten_of_mem hc
  rwa [slices_flatten hb] at this

theorem chunksOf_flatten_perm {batchSize : ℕ} (hb : 1 ≤ batchSize) (run : List Positioned) :
    (chunksOf run batchSize).flatten.Perm run := by
  have : (chunksOf run batchSize).flatten = (byLabel run).flatMap Prod.snd := by
    rw [chunksOf_eq]
    induction byLabel run with
    | nil => rfl
    | cons group rest ih => rw [List.flatMap_cons, List.flatten_append, slices_flatten hb, ih, List.flatMap_cons]
  exact this ▸ byLabel_perm run

theorem IsRun.isUpsertNode_eq {ps : List Primitive} (h : IsRun ps) {p q : Primitive} (hp : p ∈ ps) (hq : q ∈ ps) :
    isUpsertNode p = isUpsertNode q := by
  rw [Bool.eq_iff_iff, isUpsertNode_iff, isUpsertNode_iff, h.sameKey p hp q hq]

/-- A run that holds a node upsert upserts no node twice. -/
theorem IsRun.nodup_of_mem {ps : List Primitive} (h : IsRun ps) {p : Primitive} (hp : p ∈ ps)
    (hup : isUpsertNode p = true) : (ps.map nodeOf).Nodup := by
  refine h.nodup ?_
  cases ps with
  | nil => simp at hp
  | cons q ps => simpa [h.isUpsertNode_eq hp (List.mem_cons_self)] using hup

theorem applyChunk_eq {run chunk : List Positioned} {batchSize : ℕ} (hb : 1 ≤ batchSize)
    (hrun : IsRun (run.map Prod.snd)) (h : chunk ∈ chunksOf run batchSize) (g : Graph) :
    applyChunk g (chunk.map Prod.snd) = applyAll g (chunk.map Prod.snd) := by
  obtain ⟨group, hgroup, hsub⟩ := chunksOf_mem hb h
  have hperm := byLabel_perm run
  have hmem : ∀ x ∈ chunk, x.2 ∈ run.map Prod.snd := fun x hx =>
    List.mem_map_of_mem (hperm.mem_iff.1 (List.mem_flatMap.2 ⟨group, hgroup, hsub.subset hx⟩))
  cases chunk with
  | nil => rfl
  | cons first rest =>
    have hin : ∀ p ∈ (first :: rest).map Prod.snd, ∃ x ∈ first :: rest, x.2 = p := fun p hp => List.mem_map.1 hp
    refine chunkQuery_run (fun p hp => ?_) (fun p hp => ?_) (fun hup => ?_) g
    · obtain ⟨x, hx, rfl⟩ := hin p hp
      exact hrun.sameKey _ (hmem x hx) _ (hmem first (by simp))
    · obtain ⟨x, hx, rfl⟩ := hin p hp
      rw [byLabel_label run group hgroup x (hsub.subset hx),
        byLabel_label run group hgroup first (hsub.subset (by simp))]
    · have hnd := (hperm.map (nodeOf ∘ Prod.snd)).nodup_iff.2
        (by simpa using hrun.nodup_of_mem (hmem first (by simp)) hup)
      have hgsub : group.2.Sublist ((byLabel run).flatMap Prod.snd) :=
        List.sublist_flatten_of_mem (List.mem_map_of_mem hgroup)
      have := hnd.sublist ((hsub.trans hgsub).map (nodeOf ∘ Prod.snd))
      simpa using this

/-- Upserts of two nodes commute. -/
theorem applyOne_upsertNode_comm {n m : NodeRef} (h : n ≠ m) (p q : PropertyMap) (e f : Option Embedding) (g : Graph) :
    applyOne (applyOne g (.upsertNode n p e)) (.upsertNode m q f) =
      applyOne (applyOne g (.upsertNode m q f)) (.upsertNode n p e) := by
  rw [applyOne_eq_write rfl, applyOne_eq_write rfl, applyOne_eq_write rfl, applyOne_eq_write rfl]
  refine PropertyGraph.ext_at (fun k => ?_) fun k => rfl
  simp only [PropertyGraph.write_nodes, PropertyGraph.nodeStep]
  by_cases hn : n = k
  · subst hn; simp [Ne.symm h]
  · by_cases hm : m = k <;> simp [hn, hm]

/-- **The queries of a run leave what its entries leave one at a time.** -/
theorem applyRun_eq {run : List Positioned} {batchSize : ℕ} (hb : 1 ≤ batchSize) (hrun : IsRun (run.map Prod.snd))
    (g : Graph) : applyRun batchSize g run = applyAll g (run.map Prod.snd) := by
  have hchunks : applyRun batchSize g run = applyAll g ((chunksOf run batchSize).flatten.map Prod.snd) := by
    unfold applyRun
    have hone : ∀ chunk ∈ chunksOf run batchSize, ∀ g, applyChunk g (chunk.map Prod.snd) =
        applyAll g (chunk.map Prod.snd) := fun _ h => applyChunk_eq hb hrun h
    generalize chunksOf run batchSize = chunks at hone
    induction chunks generalizing g with
    | nil => rfl
    | cons chunk chunks ih =>
      rw [List.foldl_cons, hone chunk (by simp), ih _ fun c hc => hone c (List.mem_cons_of_mem _ hc),
        List.flatten_cons, List.map_append, applyAll_append]
  rw [hchunks]
  have hperm := (chunksOf_flatten_perm hb run).map Prod.snd
  by_cases hup : ∃ p ∈ run.map Prod.snd, isUpsertNode p = true
  · -- distinct nodes: the order does not matter
    obtain ⟨p, hp, hup⟩ := hup
    have hnd := hrun.nodup_of_mem hp hup
    refine hperm.foldl_eq' (fun x hx y hy z => ?_) g
    have hx' := hperm.mem_iff.1 hx
    have hy' := hperm.mem_iff.1 hy
    by_cases hxy : x = y
    · rw [hxy]
    have hne : nodeOf x ≠ nodeOf y := fun h => hxy (List.inj_on_of_nodup_map hnd hx' hy' h)
    have hxu := (hrun.isUpsertNode_eq hx' hp).trans hup
    have hyu := (hrun.isUpsertNode_eq hy' hp).trans hup
    cases x <;> simp [isUpsertNode] at hxu
    cases y <;> simp [isUpsertNode] at hyu
    exact applyOne_upsertNode_comm (fun h => hne (congrArg some h)) ..
  · have hlabel : ∀ x ∈ run, labelOf x.2 = "" := by
      intro x hx
      have hx' : isUpsertNode x.2 ≠ true := fun h => hup ⟨x.2, List.mem_map_of_mem hx, h⟩
      generalize x.2 = p at hx'
      cases p <;> first | rfl | exact absurd rfl hx'
    have hne : run ≠ [] := fun h => hrun.nonempty (by rw [h]; rfl)
    rw [chunksOf_eq, byLabel_single hne hlabel]
    simp [slices_flatten hb]

end PolicySystem
