import PolicySystem.Gateway.Applier

/-!
# Batched apply

* `batched_apply_eq_one_by_one`: the queries of the applier leave what the entries leave one at a time, and
  a reported position is one whose whole prefix of entries is applied;
* `rerun`: **a run absorbs any of its own queries that took effect before**, on every graph.
-/

namespace PolicySystem

open PropertyGraph GraphWrite

/-! ## The record of an apply -/

/-- A graph under apply, with the graph each position was reported at. -/
structure ApplyRecord where
  graph : Graph
  reports : List (ℕ × Graph)

def recordQuery (query : Query) : StateM ApplyRecord Unit :=
  modify fun r => { r with graph := query.run r.graph }

def recordReport (position : ℕ) : StateM ApplyRecord Unit :=
  modify fun r => { r with reports := r.reports ++ [(position, r.graph)] }

/-- Apply decoded entries to a graph and record what is reported. -/
def recordApply (batchSize : ℕ) (decoded : List Positioned) (g : Graph) : ApplyRecord :=
  (StateT.run (applyDecoded recordQuery recordReport batchSize decoded) ⟨g, []⟩ : Id _).2

/-- What one run adds to the record. -/
def recordRun (batchSize : ℕ) (r : ApplyRecord) (run : List Positioned) : ApplyRecord :=
  let graph := applyRun batchSize r.graph run
  ⟨graph, r.reports ++ (run.getLast?.map fun last => (last.1, graph)).toList⟩

theorem forM_run {σ α : Type} (f : α → StateM σ Unit) (xs : List α) (s : σ) :
    StateT.run (xs.forM f) s = ((), xs.foldl (fun s x => (StateT.run (f x) s).2) s) := by
  induction xs generalizing s with
  | nil => rfl
  | cons x xs ih => exact ih _

/-- Steps that apply one chunk each apply the chunks. -/
theorem foldl_chunks {step : ApplyRecord → List Positioned → ApplyRecord}
    (hstep : ∀ r chunk, step r chunk = { r with graph := applyChunk r.graph (chunk.map Prod.snd) })
    (chunks : List (List Positioned)) (r : ApplyRecord) : chunks.foldl step r =
      { r with graph := chunks.foldl (fun g chunk => applyChunk g (chunk.map Prod.snd)) r.graph } := by
  induction chunks generalizing r with
  | nil => rfl
  | cons chunk chunks ih => rw [List.foldl_cons, ih, hstep, List.foldl_cons]

theorem recordApply_eq (batchSize : ℕ) (decoded : List Positioned) (g : Graph) :
    recordApply batchSize decoded g = (runs decoded).foldl (recordRun batchSize) ⟨g, []⟩ := by
  unfold recordApply applyDecoded
  rw [forM_run]
  show (runs decoded).foldl _ _ = _
  congr 1
  funext r run
  rw [StateT.run_bind, forM_run, foldl_chunks (fun r chunk => by cases chunk <;> rfl)]
  unfold recordRun applyRun
  cases run.getLast? with
  | none => simp
  | some last => rfl

/-- A position reported with the graph it was reported at: that graph is the start graph with the entries up
to the position applied one at a time. -/
def Reported (decoded : List Positioned) (g : Graph) (report : ℕ × Graph) : Prop :=
  ∃ applied rest last, decoded = applied ++ rest ∧ applied.getLast? = some last ∧ last.1 = report.1 ∧
    report.2 = applyAll g (applied.map Prod.snd)

theorem recordRuns_eq {batchSize : ℕ} (hb : 1 ≤ batchSize) (todo : List (List Positioned)) (applied : List Positioned)
    (g : Graph) (r : ApplyRecord) (htodo : ∀ run ∈ todo, IsRun (run.map Prod.snd))
    (hg : r.graph = applyAll g (applied.map Prod.snd)) (hr : ∀ report ∈ r.reports, Reported applied g report) :
    (todo.foldl (recordRun batchSize) r).graph = applyAll g ((applied ++ todo.flatten).map Prod.snd) ∧
      ∀ report ∈ (todo.foldl (recordRun batchSize) r).reports, Reported (applied ++ todo.flatten) g report := by
  induction todo generalizing applied r with
  | nil => rw [List.flatten_nil, List.append_nil]; exact ⟨hg, hr⟩
  | cons run todo ih =>
    have hrun := htodo run (by simp)
    have hgraph : (recordRun batchSize r run).graph = applyAll g ((applied ++ run).map Prod.snd) := by
      rw [List.map_append, applyAll_append, ← hg]
      exact applyRun_eq hb hrun r.graph
    have hrest := ih (applied ++ run) (recordRun batchSize r run)
      (fun run h => htodo run (List.mem_cons_of_mem _ h)) hgraph ?_
    · simpa [List.append_assoc] using hrest
    · intro report hrep
      rcases List.mem_append.1 hrep with h | h
      · obtain ⟨xs, ys, last, rfl, h1, h2, h3⟩ := hr report h
        exact ⟨xs, ys ++ run, last, by simp, h1, h2, h3⟩
      · -- the run's own report comes with everything up to its last entry
        cases hlast : run.getLast? with
        | none => rw [hlast] at h; simp at h
        | some last =>
          rw [hlast] at h
          simp only [Option.map_some, Option.toList_some, List.mem_singleton] at h
          subst h
          exact ⟨applied ++ run, [], last, by simp, by rw [List.getLast?_append, hlast]; rfl, rfl, hgraph⟩

/-- **Batched apply equals one-by-one apply.** -/
theorem batched_apply_eq_one_by_one (batchSize : ℕ) (hb : 1 ≤ batchSize) (decoded : List Positioned) (g : Graph) :
    (recordApply batchSize decoded g).graph = applyAll g (decoded.map Prod.snd) ∧
      ∀ report ∈ (recordApply batchSize decoded g).reports, Reported decoded g report := by
  rw [recordApply_eq]
  have h := recordRuns_eq hb (runs decoded) [] g ⟨g, []⟩ (fun run h => mem_runs h) rfl (fun _ h => nomatch h)
  rwa [List.nil_append, runs_flatten] at h

/-- Two upserts of one node: the second opens a run of its own. -/
def upsertedTwice : List Positioned :=
  [(1, .upsertNode ⟨"Capability", "c"⟩ ∅ none),
    (2, .upsertNode ⟨"Capability", "c"⟩ ((∅ : PropertyMap).insert "name" (.scalar (.str "access control"))) none)]

theorem batched_apply_eq_one_by_one_twice :
    (recordApply 5 upsertedTwice ∅).graph = applyAll ∅ (upsertedTwice.map Prod.snd) ∧
      ∀ report ∈ (recordApply 5 upsertedTwice ∅).reports, Reported upsertedTwice ∅ report :=
  batched_apply_eq_one_by_one 5 (by decide) upsertedTwice ∅

/-! ## Running a run again -/

theorem applyAll_stamps_noop {g : Graph} {ps : List Primitive} (hps : ∀ p ∈ ps, isStamp p = true)
    (h : ∀ e, Primitive.stampEdgeIdentity e ∈ ps → g.edgesAt e.unidentifiedKey = 0) : applyAll g ps = g := by
  rw [← applyAll_filter_stamps h, List.filter_eq_nil_iff.2 fun p hp => by simp [hps p hp]]; rfl

theorem applyAll_clears {ps : List Primitive} {e : EdgeBase} (h : Primitive.stampEdgeIdentity e ∈ ps) (g : Graph) :
    (applyAll g ps).edgesAt e.unidentifiedKey = 0 := by
  obtain ⟨xs, ys, rfl⟩ := List.append_of_mem h
  rw [applyAll_append, applyAll_cons]
  exact applyAll_unidentified rfl (stampEdge_clears _ e) ys

/-- The writes of a run are grounded on every graph: a run that creates nodes needs none. -/
theorem IsRun.grounded {ps : List Primitive} (h : IsRun ps) (g : Graph) : Grounded g (writesOf ps) := by
  intro E₁ w E₂ he n hn
  refine .inr (.inr (.inr ?_))
  rintro ⟨f, hf⟩
  obtain ⟨p, hp, hpw⟩ := mem_writesOf.1 (show w ∈ writesOf ps by rw [he]; simp)
  obtain ⟨q, hq, hqw⟩ := mem_writesOf.1 hf
  have hkey := h.sameKey p hp q hq
  cases q <;> simp [Primitive.toWrite] at hqw
  cases p <;> simp [Primitive.toWrite] at hpw <;> simp [runKey] at hkey
  subst hpw
  exact hn

/-- **A run absorbs any of its own queries that took effect before**, on every graph. -/
theorem rerun {run : List Positioned} {batchSize : ℕ} (hb : 1 ≤ batchSize) (hrun : IsRun (run.map Prod.snd))
    {done : List (List Positioned)} (hdone : done <+: chunksOf run batchSize) (g : Graph) :
    applyAll (done.foldl (fun g chunk => applyChunk g (chunk.map Prod.snd)) g) (run.map Prod.snd) =
      applyAll g (run.map Prod.snd) := by
  have hchunks : done.foldl (fun g chunk => applyChunk g (chunk.map Prod.snd)) g =
      applyAll g (done.flatten.map Prod.snd) := by
    have hone := fun (chunk : List Positioned) h => applyChunk_eq hb hrun (hdone.subset (a := chunk) h)
    clear hdone
    induction done generalizing g with
    | nil => rfl
    | cons chunk done ih =>
      rw [List.foldl_cons, hone chunk (by simp), ih _ fun c hc => hone c (List.mem_cons_of_mem _ hc),
        List.flatten_cons, List.map_append, applyAll_append]
  have hsub : ∀ p ∈ done.flatten.map Prod.snd, p ∈ run.map Prod.snd := by
    intro p hp
    obtain ⟨x, hx, rfl⟩ := List.mem_map.1 hp
    obtain ⟨chunk, hc, hx⟩ := List.mem_flatten.1 hx
    exact List.mem_map_of_mem ((chunksOf_flatten_perm hb run).mem_iff.1
      (List.mem_flatten.2 ⟨chunk, hdone.subset hc, hx⟩))
  rw [hchunks]
  by_cases hstamp : ∃ p ∈ run.map Prod.snd, isStamp p = true
  · -- a run of stamps is in order, and after some of them their pairs hold nothing to stamp
    obtain ⟨p, hp, hps⟩ := hstamp
    have hall : ∀ q ∈ run.map Prod.snd, isStamp q = true := by
      intro q hq
      have hkey := hrun.sameKey p hp q hq
      cases p <;> simp [isStamp] at hps
      cases q <;> simp [runKey] at hkey
      rfl
    have hlabel : ∀ x ∈ run, labelOf x.2 = "" := by
      intro x hx
      have := hall x.2 (List.mem_map_of_mem hx)
      generalize x.2 = q at this
      cases q <;> first | rfl | simp [isStamp] at this
    have hne : run ≠ [] := fun h => hrun.nonempty (by rw [h]; rfl)
    have hflat : (chunksOf run batchSize).flatten = run := by
      rw [chunksOf_eq, byLabel_single hne hlabel]; simp [slices_flatten hb]
    obtain ⟨rest, hrest⟩ := hdone
    have hsplit : run.map Prod.snd = done.flatten.map Prod.snd ++ rest.flatten.map Prod.snd := by
      rw [← hflat, ← hrest, List.flatten_append, List.map_append]
    conv_lhs => rw [hsplit, applyAll_append]
    rw [applyAll_stamps_noop (fun q hq => hall q (hsub q hq)) fun e he => applyAll_clears he g, ← applyAll_append,
      ← hsplit]
  · have hno : ∀ p ∈ run.map Prod.snd, isStamp p = false := fun p hp => by
      simpa using fun h => hstamp ⟨p, hp, h⟩
    rw [applyAll_eq_writeAll (fun p hp => hno p (hsub p hp)), applyAll_eq_writeAll hno, applyAll_eq_writeAll hno]
    refine reapply (writesOf_overwriting _) (fun w hw => ?_) (hrun.grounded g)
    obtain ⟨p, hp, hpw⟩ := mem_writesOf.1 hw
    exact mem_writesOf.2 ⟨p, hsub p hp, hpw⟩

end PolicySystem
