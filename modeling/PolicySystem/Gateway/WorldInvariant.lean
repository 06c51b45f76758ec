import PolicySystem.Gateway.Invariant

/-!
# The invariant of the world

* `GatewayOk`: every graph is in order, and each group is drafted and logged once;
* `SameLog`, `AppliesOnly`: what a step leaves as it was;
* `GatewayOk.append`, `.query`, `.advance`, `.stage`, `.flip`, ...: **each move of the gateway keeps the invariant.**
-/

namespace PolicySystem

open PropertyGraph GraphWrite

/-- The groups of the log and of the open transactions, each by its submission and graph. -/
def World.keys (w : World) : List (ℕ × String) :=
  w.groups.map (fun r => (r.submission, r.graph)) ++ w.transactions.map fun t => (t.draft.submission, t.draft.graph)

/-- **What holds of the world of the gateway**, with the swap sets that are renamed. -/
structure GatewayOk (start : String → Graph) (flipped : ℕ → Prop) (w : World) : Prop where
  graphs : ∀ g, GraphOk (start g) flipped (w.view g)
  once : w.keys.Nodup
  drafted : ∀ key ∈ w.keys, key.1 < w.calls
  sets : ∀ r ∈ w.groups, ∀ s, r.swapSet = some s → s = r.submission
  onTop : ∀ t ∈ w.transactions, t.draft.primitives ≠ [] ∧ (w.view t.draft.graph).CaughtUp
  alone : (w.transactions.map fun t => t.draft.graph).Nodup
  opened : ∀ s ∈ w.process.submissions, s.isOpen = true → (w.view s.appended.graph).InPlace

/-! ## What a step leaves as it was -/

/-- The log, the transactions and the submissions are as they were. -/
structure SameLog (w w' : World) : Prop where
  entries : w'.entries = w.entries
  groups : w'.groups = w.groups
  transactions : w'.transactions = w.transactions
  calls : w'.calls = w.calls
  submissions : w'.process.submissions = w.process.submissions
  forward : ∀ g, w.applied g ≤ w'.applied g

/-- Only the markers, contents and staged copies of some graphs change. -/
structure AppliesOnly (graphs : List String) (w w' : World) : Prop extends SameLog w w' where
  others : ∀ g, g ∉ graphs → w'.view g = w.view g

/-- Only the logs of some graphs grow, and no marker goes back. -/
structure LogsOnly (graphs : List String) (w w' : World) : Prop where
  others : ∀ g, g ∉ graphs → w'.entries g = w.entries g
  forward : ∀ g, w.applied g ≤ w'.applied g

section Frames

variable {w w' w'' : World} {graphs : List String} {g : String}

theorem SameLog.refl (w : World) : SameLog w w := ⟨rfl, rfl, rfl, rfl, rfl, fun _ => le_refl _⟩

theorem SameLog.trans (h : SameLog w w') (h' : SameLog w' w'') : SameLog w w'' where
  entries := h'.entries.trans h.entries
  groups := h'.groups.trans h.groups
  transactions := h'.transactions.trans h.transactions
  calls := h'.calls.trans h.calls
  submissions := h'.submissions.trans h.submissions
  forward g := (h.forward g).trans (h'.forward g)

theorem SameLog.rows (h : SameLog w w') (g : String) : (w'.view g).rows = (w.view g).rows := by
  unfold World.view
  rw [h.groups]

theorem SameLog.logged (h : SameLog w w') (g : String) : (w'.view g).logged = (w.view g).logged := by
  unfold World.view GraphView.logged
  rw [h.entries]

theorem SameLog.keys (h : SameLog w w') : w'.keys = w.keys := by
  unfold World.keys
  rw [h.groups, h.transactions]

theorem SameLog.inPlace (h : SameLog w w') (hin : (w.view g).InPlace) : (w'.view g).InPlace := by
  intro r hr hs
  rw [h.rows] at hr
  exact (hin r hr hs).trans (h.forward g)

theorem SameLog.isAppending (h : SameLog w w') (g : String) : w'.isAppending g = w.isAppending g := by
  unfold World.isAppending
  rw [h.transactions]

theorem SameLog.holds (h : SameLog w w') (g : String) : w'.holds g = w.holds g := by
  unfold World.holds
  rw [h.submissions]

theorem LogsOnly.trans (h : LogsOnly graphs w w') (h' : LogsOnly graphs w' w'') : LogsOnly graphs w w'' where
  others g hg := (h'.others g hg).trans (h.others g hg)
  forward g := (h.forward g).trans (h'.forward g)

theorem SameLog.logsOnly (h : SameLog w w') : LogsOnly graphs w w' := ⟨fun g _ => congrFun h.entries g, h.forward⟩

theorem AppliesOnly.refl (w : World) : AppliesOnly graphs w w := ⟨SameLog.refl w, fun _ _ => rfl⟩

theorem AppliesOnly.trans (h : AppliesOnly graphs w w') (h' : AppliesOnly graphs w' w'') : AppliesOnly graphs w w'' :=
  ⟨h.toSameLog.trans h'.toSameLog, fun g hg => (h'.others g hg).trans (h.others g hg)⟩

theorem mem_rows {r : GroupRow} : r ∈ (w.view g).rows ↔ r ∈ w.groups ∧ r.graph = g := by
  unfold World.view
  rw [List.mem_filter, decide_eq_true_eq]

end Frames

section Moves

variable {start : String → Graph} {flipped : ℕ → Prop} {w w' : World} {g : String}

/-- The marker that was at the end stays there. -/
theorem LogsOnly.logged (h : LogsOnly graphs w w') (hg : g ∉ graphs) : (w'.view g).logged = (w.view g).logged := by
  unfold GraphView.logged World.view
  rw [h.others g hg]

theorem LogsOnly.mono {graphs' : List String} (h : LogsOnly graphs w w') (hsub : graphs ⊆ graphs') :
    LogsOnly graphs' w w' := ⟨fun g hg => h.others g fun hin => hg (hsub hin), h.forward⟩

theorem LogsOnly.atLast (h : LogsOnly graphs w w') (hg : g ∉ graphs) :
    (w'.view g).atLast (start g) = (w.view g).atLast (start g) := by
  unfold GraphView.atLast
  rw [h.logged hg]

/-- A graph whose log is as it was stays caught up. -/
theorem LogsOnly.caughtUp (h : LogsOnly graphs w w') (hg : g ∉ graphs) (hok : GraphOk (start g) flipped (w'.view g))
    (hc : (w.view g).CaughtUp) : (w'.view g).CaughtUp := by
  have hf := h.forward g
  have hm := hok.marker
  have hc' : w.applied g = (w.view g).logged.length := hc
  rw [h.logged hg] at hm
  unfold GraphView.CaughtUp
  rw [h.logged hg]
  exact le_antisymm hm (by rw [← hc']; exact hf)

theorem caughtUp_forward (h : SameLog w w') (hok : GraphOk (start g) flipped (w'.view g)) (hc : (w.view g).CaughtUp) :
    (w'.view g).CaughtUp := by
  have hf := h.forward g
  have hm := hok.marker
  have hc' : w.applied g = (w.view g).logged.length := hc
  rw [h.logged] at hm
  unfold GraphView.CaughtUp
  rw [h.logged]
  exact le_antisymm hm (by rw [← hc']; exact hf)

/-- Where the log stays as it was, what holds of each graph is what holds. -/
theorem GatewayOk.of_sameLog (h : GatewayOk start flipped w) (hsame : SameLog w w') {flipped' : ℕ → Prop}
    (hgraphs : ∀ g, GraphOk (start g) flipped' (w'.view g)) : GatewayOk start flipped' w' where
  graphs := hgraphs
  once := by rw [hsame.keys]; exact h.once
  drafted := by rw [hsame.keys, hsame.calls]; exact h.drafted
  sets := by rw [hsame.groups]; exact h.sets
  onTop t ht := by
    rw [hsame.transactions] at ht
    exact ⟨(h.onTop t ht).1, caughtUp_forward hsame (hgraphs _) (h.onTop t ht).2⟩
  alone := by rw [hsame.transactions]; exact h.alone
  opened s hs ho := by
    rw [hsame.submissions] at hs
    exact hsame.inPlace (h.opened s hs ho)

theorem GatewayOk.change (h : GatewayOk start flipped w) (hmove : AppliesOnly [g] w w')
    (hg : GraphOk (start g) flipped (w'.view g)) : GatewayOk start flipped w' := by
  refine h.of_sameLog hmove.toSameLog fun g' => ?_
  by_cases hgg : g' = g
  · rw [hgg]; exact hg
  · rw [hmove.others g' (by simpa using hgg)]
    exact h.graphs g'

/-! ## Queries and markers -/

theorem view_setLive (w : World) (g : String) (stored : StoredGraph) :
    (w.setLive g stored).view g = { w.view g with content := stored.content } := by
  unfold World.view World.setLive World.content
  simp

theorem setLive_applies (w : World) (g : String) (stored : StoredGraph) : AppliesOnly [g] w (w.setLive g stored) where
  entries := rfl
  groups := rfl
  transactions := rfl
  calls := rfl
  submissions := rfl
  forward _ := le_refl _
  others g' hg' := by
    have hne : g' ≠ g := by simpa using hg'
    unfold World.view World.setLive World.content
    simp [Function.update_of_ne hne]

def World.setApplied (w : World) (g : String) (position : ℕ) : World :=
  { w with applied := Function.update w.applied g position }

theorem view_setApplied (w : World) (g : String) (position : ℕ) :
    (w.setApplied g position).view g = { w.view g with applied := position } := by
  unfold World.view World.setApplied World.content
  simp

theorem setApplied_applies (w : World) {g : String} {position : ℕ} (h : w.applied g ≤ position) :
    AppliesOnly [g] w (w.setApplied g position) where
  entries := rfl
  groups := rfl
  transactions := rfl
  calls := rfl
  submissions := rfl
  forward g' := by
    unfold World.setApplied
    dsimp only
    by_cases hg : g' = g
    · subst hg; rwa [Function.update_self]
    · rw [Function.update_of_ne hg]
  others g' hg' := by
    have hne : g' ≠ g := by simpa using hg'
    unfold World.view World.setApplied World.content
    simp [Function.update_of_ne hne]

theorem GatewayOk.advance (h : GatewayOk start flipped w) (hin : (w.view g).InPlace) {k : ℕ} (hk : w.applied g ≤ k)
    (hlast : k ≤ (w.view g).logged.length) (hc : w.content g = applyAll (start g) ((w.view g).logged.take k)) :
    GatewayOk start flipped (w.setApplied g k) := by
  refine h.change (setApplied_applies w hk) ?_
  rw [view_setApplied]
  exact (h.graphs g).advance hin hk hlast hc

theorem GatewayOk.advanceSwapped (h : GatewayOk start flipped w) {r : GroupRow} {s : ℕ} (hr : r ∈ w.groups)
    (hs : r.swapSet = some s) (hf : flipped s) :
    GatewayOk start flipped (w.setApplied r.graph (max (w.applied r.graph) r.lastPosition)) := by
  refine h.change (setApplied_applies w (le_max_left _ _)) ?_
  rw [view_setApplied]
  exact (h.graphs r.graph).advanceSwapped (mem_rows.2 ⟨hr, rfl⟩) hs hf

/-! ## Staged copies and renames -/

theorem view_setStaged (w : World) (g : String) (s : ℕ) (copy : Option StoredGraph) :
    (w.setStaged g s copy).view g = { w.view g with staged := Function.update (w.staged g) s copy } := by
  unfold World.view World.setStaged World.content
  simp

theorem setStaged_applies (w : World) (g : String) (s : ℕ) (copy : Option StoredGraph) :
    AppliesOnly [g] w (w.setStaged g s copy) where
  entries := rfl
  groups := rfl
  transactions := rfl
  calls := rfl
  submissions := rfl
  forward _ := le_refl _
  others g' hg' := by
    have hne : g' ≠ g := by simpa using hg'
    unfold World.view World.setStaged World.content
    simp [Function.update_of_ne hne]

/-- What passes over a waiting leg may leave of its staged copy. -/
def PartOf (start : Graph) (v : GraphView) (c : Graph) : Prop :=
  ∀ stamps rest, v.logged.drop v.applied = stamps.map .stampEdgeIdentity ++ rest →
    Redoable (v.atMarker start) stamps rest → Partway (v.atMarker start) stamps rest c

theorem GatewayOk.stage (h : GatewayOk start flipped w) {s : ℕ} {copy : Option StoredGraph}
    (hcopy : ∀ c, copy = some c → (∃ r ∈ (w.view g).rows, r.swapSet = some s) ∧
      PartOf (start g) (w.view g) c.content) : GatewayOk start flipped (w.setStaged g s copy) := by
  refine h.change (setStaged_applies w g s copy) ?_
  rw [view_setStaged]
  refine (h.graphs g).stage (fun hne => ?_) fun r _ _ _ stamps rest hlog hredo _ c hc => ?_
  · obtain ⟨c, hc⟩ := Option.ne_none_iff_exists'.1 hne
    exact (hcopy c hc).1
  · exact (hcopy c hc).2 stamps rest hlog hredo

theorem discard_ok (h : GatewayOk start flipped w) (graphs : List String) (s : ℕ) :
    GatewayOk start flipped (graphs.foldl (fun w g => w.setStaged g s none) w) := by
  induction graphs generalizing w with
  | nil => exact h
  | cons g graphs ih => exact ih (h.stage fun c hc => nomatch hc)

/-- Staged copies of some graphs are dropped or renamed; log and markers are as they were. -/
structure SwapsOnly (w w' : World) : Prop extends SameLog w w' where
  applied : w'.applied = w.applied

theorem SwapsOnly.refl (w : World) : SwapsOnly w w := ⟨SameLog.refl w, rfl⟩

theorem SwapsOnly.trans {w'' : World} (h : SwapsOnly w w') (h' : SwapsOnly w' w'') : SwapsOnly w w'' :=
  ⟨h.toSameLog.trans h'.toSameLog, h'.applied.trans h.applied⟩

theorem setStaged_swaps (w : World) (g : String) (s : ℕ) (copy : Option StoredGraph) :
    SwapsOnly w (w.setStaged g s copy) := ⟨(setStaged_applies w g s copy).toSameLog, rfl⟩

theorem discard_swaps (w : World) (graphs : List String) (s : ℕ) :
    SwapsOnly w (graphs.foldl (fun w g => w.setStaged g s none) w) := by
  induction graphs generalizing w with
  | nil => exact SwapsOnly.refl w
  | cons g graphs ih => exact (setStaged_swaps w g s none).trans (ih _)

theorem rename_swaps (w : World) (s : ℕ) (g : String) : SwapsOnly w (w.rename s g) := by
  unfold World.rename
  split
  · exact SwapsOnly.refl w
  · exact SwapsOnly.trans ⟨(setLive_applies w g _).toSameLog, rfl⟩ (setStaged_swaps _ g s none)

theorem renames_swaps (w : World) (graphs : List String) (s : ℕ) :
    SwapsOnly w (graphs.foldl (fun w g => w.rename s g) w) := by
  induction graphs generalizing w with
  | nil => exact SwapsOnly.refl w
  | cons g graphs ih => exact (rename_swaps w s g).trans (ih _)

theorem view_rename_of_ne {s : ℕ} {g g' : String} (h : g' ≠ g) : (w.rename s g).view g' = w.view g' := by
  have hnot : g' ∉ [g] := by simpa using h
  unfold World.rename
  split
  · rfl
  · rw [(setStaged_applies _ g s none).others g' hnot, (setLive_applies w g _).others g' hnot]

theorem view_rename {s : ℕ} {g : String} {stored : StoredGraph} (h : w.staged g s = some stored) :
    (w.rename s g).view g =
      { w.view g with content := stored.content, staged := Function.update (w.staged g) s none } := by
  unfold World.rename
  rw [h]
  dsimp only
  rw [view_setStaged, view_setLive]
  rfl

theorem rename_none {s : ℕ} {g : String} (h : w.staged g s = none) : w.rename s g = w := by
  unfold World.rename
  rw [h]

/-- A graph whose staged key is gone is not renamed again. -/
theorem view_renames_none {s : ℕ} {g : String} (graphs : List String) (h : (w.view g).staged s = none) :
    (graphs.foldl (fun w g => w.rename s g) w).view g = w.view g := by
  induction graphs generalizing w with
  | nil => rfl
  | cons g' graphs ih =>
    have hone : (w.rename s g').view g = w.view g := by
      by_cases hgg : g = g'
      · subst hgg; rw [rename_none h]
      · exact view_rename_of_ne hgg
    rw [List.foldl_cons, ih (by rw [hone]; exact h), hone]

theorem view_renames_notMem {s : ℕ} {g : String} {graphs : List String} (h : g ∉ graphs) :
    (graphs.foldl (fun w g => w.rename s g) w).view g = w.view g := by
  induction graphs generalizing w with
  | nil => rfl
  | cons g' graphs ih =>
    rw [List.mem_cons, not_or] at h
    rw [List.foldl_cons, ih h.2, view_rename_of_ne h.1]

theorem view_renames_mem {s : ℕ} {g : String} {stored : StoredGraph} {graphs : List String} (hg : g ∈ graphs)
    (h : (w.view g).staged s = some stored) :
    (graphs.foldl (fun w g => w.rename s g) w).view g =
      { w.view g with content := stored.content, staged := Function.update (w.staged g) s none } := by
  induction graphs generalizing w with
  | nil => simp at hg
  | cons g' graphs ih =>
    rw [List.foldl_cons]
    by_cases hgg : g = g'
    · subst hgg
      have hview := view_rename (w := w) h
      rw [view_renames_none graphs (by rw [hview]; exact Function.update_self ..), hview]
    · have hview := view_rename_of_ne (w := w) (s := s) hgg
      have htail := ih ((List.mem_cons.1 hg).resolve_left hgg) (w := w.rename s g') (by rw [hview]; exact h)
      rw [htail, hview, show (w.rename s g').staged g = w.staged g from congrArg GraphView.staged hview]

/-- **The rename.** The waiting legs of a set are renamed together, each to a finished copy; either these are all
legs of the set, or the set was renamed before. -/
theorem GatewayOk.flip (h : GatewayOk start flipped w) {s : ℕ} {graphs : List String}
    (hlegs : ∀ g ∈ graphs, (∃ r ∈ (w.view g).rows, r.swapSet = some s ∧ w.applied g < r.lastPosition) ∧
      ∃ copy, w.staged g s = some copy ∧ copy.content = (w.view g).atLast (start g))
    (hall : flipped s ∨ ∀ r ∈ w.groups, r.swapSet = some s → r.graph ∈ graphs) :
    GatewayOk start (fun s' => flipped s' ∨ s' = s) (graphs.foldl (fun w g => w.rename s g) w) := by
  refine h.of_sameLog (renames_swaps w graphs s).toSameLog fun g => ?_
  by_cases hg : g ∈ graphs
  · obtain ⟨⟨r, hr, hrs, hlt⟩, copy, hcopy, hcontent⟩ := hlegs g hg
    rw [view_renames_mem hg hcopy, hcontent]
    exact (h.graphs g).rename hr hrs hlt
  · rw [view_renames_notMem hg]
    refine (h.graphs g).notRenamed fun r hr hrs _ => ?_
    rcases hall with hf | hall
    · exact hf
    · obtain ⟨hr', hrg⟩ := mem_rows.1 hr
      exact absurd (hrg ▸ hall r hr' hrs) hg

/-! ## Groups -/

theorem lastPosition_eq (h : GraphOk (start g) flipped (w.view g)) : w.lastPosition g = (w.view g).logged.length := by
  have hentries : w.entries g = (numbered 1 (w.view g).logged).map rowOf := h.entries
  unfold World.lastPosition
  rw [hentries, lastPositionOf_numbered]

theorem appended_rows (d : GroupDraft) (s : Option ℕ) (w : World) :
    (w.append d s).2.groups = w.groups ++
      [⟨d.graph, w.lastPosition d.graph + 1, w.lastPosition d.graph + d.primitives.length, d.submission, s⟩] := rfl

theorem view_append_of_ne {d : GroupDraft} {s : Option ℕ} (hg : g ≠ d.graph) : (w.append d s).2.view g = w.view g := by
  unfold World.append World.view World.content
  simp [Function.update_of_ne hg, hg.symm]

theorem view_append {d : GroupDraft} {s : Option ℕ} (h : GraphOk (start d.graph) flipped (w.view d.graph)) :
    (w.append d s).2.view d.graph = { w.view d.graph with
      entries := (w.view d.graph).entries ++
        (numbered ((w.view d.graph).logged.length + 1) d.primitives).map rowOf
      rows := (w.view d.graph).rows ++ [⟨d.graph, (w.view d.graph).logged.length + 1,
        (w.view d.graph).logged.length + d.primitives.length, d.submission, s⟩] } := by
  have hlast := lastPosition_eq h
  have hentries : (w.append d s).2.entries d.graph = w.entries d.graph ++
      (numbered ((w.view d.graph).logged.length + 1) d.primitives).map rowOf := by
    unfold World.append
    dsimp only
    rw [Function.update_self, hlast, mapIdx_rowOf]
  have hrows : (w.append d s).2.groups.filter (fun row => row.graph = d.graph) =
      (w.view d.graph).rows ++ [⟨d.graph, (w.view d.graph).logged.length + 1,
        (w.view d.graph).logged.length + d.primitives.length, d.submission, s⟩] := by
    rw [appended_rows, List.filter_append, hlast, List.filter_singleton]
    simp [World.view]
  unfold World.view at hentries hrows ⊢
  rw [hentries, hrows]
  rfl

/-- **A group is appended** to a graph that is caught up and that no other transaction appends to. -/
theorem GatewayOk.append (h : GatewayOk start flipped w) {d : GroupDraft} {swapSet : Option ℕ}
    (hne : d.primitives ≠ []) (hc : (w.view d.graph).CaughtUp) (hfresh : (d.submission, d.graph) ∉ w.keys)
    (hcall : d.submission < w.calls) (hfree : w.isAppending d.graph = false)
    (hswap : ∀ s, swapSet = some s → s = d.submission ∧ ¬ flipped s ∧ w.holds d.graph = false ∧
      ∃ stamps rest, d.primitives = stamps.map .stampEdgeIdentity ++ rest ∧ Redoable (w.content d.graph) stamps rest) :
    GatewayOk start flipped (w.append d swapSet).2 := by
  have hview := view_append (s := swapSet) (h.graphs d.graph)
  have hkeys : (w.append d swapSet).2.keys.Perm ((d.submission, d.graph) :: w.keys) := by
    unfold World.keys
    rw [appended_rows, List.map_append, List.map_singleton, List.append_assoc]
    exact List.perm_middle
  refine ⟨fun g => ?_, ?_, fun key hkey => ?_, fun r hr s hs => ?_, fun t ht => ?_, h.alone, fun s hs ho => ?_⟩
  · by_cases hg : g = d.graph
    · subst hg
      rw [hview]
      refine (h.graphs d.graph).append hc hne rfl rfl fun s hs => ?_
      obtain ⟨hsub, hf, -, hredo⟩ := hswap s hs
      refine ⟨hf, fun r hr hrs => hfresh ?_, hredo⟩
      -- a group of this set on this graph would be this submission's
      obtain ⟨hr, hrg⟩ := mem_rows.1 hr
      have hsr := h.sets r hr s hrs
      refine List.mem_append_left _ (List.mem_map.2 ⟨r, hr, ?_⟩)
      rw [hrg, ← hsr, hsub]
    · rw [view_append_of_ne hg]
      exact h.graphs g
  · exact hkeys.nodup_iff.2 (List.nodup_cons.2 ⟨hfresh, h.once⟩)
  · rcases List.mem_cons.1 (hkeys.mem_iff.1 hkey) with rfl | hkey
    · exact hcall
    · exact h.drafted key hkey
  · rw [appended_rows] at hr
    rcases List.mem_append.1 hr with hr | hr
    · exact h.sets r hr s hs
    · rw [List.mem_singleton.1 hr] at hs ⊢
      exact (hswap s hs).1
  · have hne' : t.draft.graph ≠ d.graph := by
      intro heq
      unfold World.isAppending at hfree
      rw [List.any_eq_false] at hfree
      exact hfree t ht (by simp [heq])
    rw [view_append_of_ne hne']
    exact h.onTop t ht
  · by_cases hg : s.appended.graph = d.graph
    · rw [hg, hview]
      intro r hr hrs
      dsimp only at hr ⊢
      rcases List.mem_append.1 hr with hr | hr
      · have := h.opened s hs ho
        rw [hg] at this
        exact this r hr hrs
      · rw [List.mem_singleton.1 hr] at hrs
        obtain ⟨s', hs'⟩ := Option.ne_none_iff_exists'.1 hrs
        -- the graph is locked by nobody while a swap set is appended
        have hheld := (hswap s' hs').2.2.1
        unfold World.holds at hheld
        rw [List.any_eq_false] at hheld
        exact absurd (by simp [ho, hg]) (hheld s hs)
    · rw [view_append_of_ne hg]
      exact h.opened s hs ho

/-- Groups in one transaction, each on a graph of its own. -/
theorem GatewayOk.appendAll (h : GatewayOk start flipped w) {ds : List GroupDraft} {swapSet : Option ℕ}
    (hgraphs : (ds.map GroupDraft.graph).Nodup)
    (hds : ∀ d ∈ ds, d.primitives ≠ [] ∧ (w.view d.graph).CaughtUp ∧ (d.submission, d.graph) ∉ w.keys ∧
      d.submission < w.calls ∧ w.isAppending d.graph = false ∧
      ∀ s, swapSet = some s → s = d.submission ∧ ¬ flipped s ∧ w.holds d.graph = false ∧
        ∃ stamps rest, d.primitives = stamps.map .stampEdgeIdentity ++ rest ∧
          Redoable (w.content d.graph) stamps rest) :
    GatewayOk start flipped (w.appendAll ds swapSet).2 := by
  have hgen : ∀ (done : List AppendedGroup), GatewayOk start flipped (ds.foldl (fun p draft =>
      (p.1 ++ [(p.2.append draft swapSet).1], (p.2.append draft swapSet).2)) (done, w)).2 := by
    induction ds generalizing w with
    | nil => intro done; exact h
    | cons d ds ih =>
      intro done
      rw [List.map_cons, List.nodup_cons] at hgraphs
      obtain ⟨hne, hc, hfresh, hcall, hfree, hswap⟩ := hds d (by simp)
      rw [List.foldl_cons]
      refine ih (h.append hne hc hfresh hcall hfree hswap) hgraphs.2 (fun d' hd' => ?_) _
      have hdd : d'.graph ≠ d.graph := fun heq => hgraphs.1 (List.mem_map.2 ⟨d', hd', heq⟩)
      obtain ⟨hne', hc', hfresh', hcall', hfree', hswap'⟩ := hds d' (List.mem_cons_of_mem _ hd')
      have hview := view_append_of_ne (w := w) (s := swapSet) hdd
      refine ⟨hne', by rw [hview]; exact hc', ?_, hcall', hfree', hswap'⟩
      intro hin
      unfold World.keys at hin
      rw [appended_rows] at hin
      simp only [List.map_append, List.mem_append, List.map_cons, List.map_nil, List.mem_singleton] at hin
      rcases hin with (hin | hin) | hin
      · exact hfresh' (List.mem_append_left _ hin)
      · exact hdd (congrArg Prod.snd hin)
      · exact hfresh' (List.mem_append_right _ hin)
  rw [World.appendAll_eq_foldl]
  exact hgen []

/-- A group is drafted on a transaction. -/
theorem GatewayOk.draft (h : GatewayOk start flipped w) {d : GroupDraft} (hne : d.primitives ≠ [])
    (hc : (w.view d.graph).CaughtUp) (hfresh : (d.submission, d.graph) ∉ w.keys) (hcall : d.submission < w.calls)
    (hfree : w.isAppending d.graph = false) :
    GatewayOk start flipped { w with transactions := w.transactions ++ [⟨d⟩] } where
  graphs := h.graphs
  once := by
    unfold World.keys
    dsimp only
    rw [List.map_append, List.map_singleton, ← List.append_assoc]
    exact (List.perm_append_singleton _ _).nodup_iff.2 (List.nodup_cons.2 ⟨hfresh, h.once⟩)
  drafted key hkey := by
    unfold World.keys at hkey
    dsimp only at hkey
    rw [List.map_append, List.map_singleton, ← List.append_assoc, List.mem_append, List.mem_singleton] at hkey
    rcases hkey with hkey | rfl
    · exact h.drafted key hkey
    · exact hcall
  sets := h.sets
  onTop t ht := by
    rcases List.mem_append.1 ht with ht | ht
    · exact h.onTop t ht
    · rw [List.mem_singleton.1 ht]
      exact ⟨hne, hc⟩
  alone := by
    rw [List.map_append, List.map_singleton]
    refine (List.perm_append_singleton _ _).nodup_iff.2 (List.nodup_cons.2 ⟨fun hin => ?_, h.alone⟩)
    obtain ⟨t, ht, hg⟩ := List.mem_map.1 hin
    unfold World.isAppending at hfree
    rw [List.any_eq_false] at hfree
    exact hfree t ht (by simp [hg])
  opened := h.opened

/-- Transactions end without a trace. -/
theorem GatewayOk.undraft (h : GatewayOk start flipped w) {ts : List OpenTransaction}
    (hts : ts.Sublist w.transactions) : GatewayOk start flipped { w with transactions := ts } where
  graphs := h.graphs
  once := h.once.sublist ((List.Sublist.refl _).append (hts.map _))
  drafted key hkey := h.drafted key (((List.Sublist.refl _).append (hts.map _)).subset hkey)
  sets := h.sets
  onTop t ht := h.onTop t (hts.subset ht)
  alone := h.alone.sublist (hts.map _)
  opened := h.opened

theorem GatewayOk.endTransaction (h : GatewayOk start flipped w) (submission : ℕ) (committed : Bool) :
    GatewayOk start flipped (w.endTransaction submission committed) := by
  unfold World.endTransaction
  split
  · exact h
  · rename_i t ht
    have htmem := List.mem_of_find?_eq_some ht
    have htsub : t.draft.submission = submission := by simpa using List.find?_some ht
    have hrest := h.undraft (List.filter_sublist (p := fun t => t.draft.submission ≠ submission) (l := w.transactions))
    dsimp only
    split
    · refine hrest.append (h.onTop t htmem).1 (h.onTop t htmem).2 ?_ ?_ ?_ fun s hs => nomatch hs
      · -- the draft's key was its own
        have honce := h.once
        unfold World.keys at honce ⊢
        rw [List.nodup_append] at honce
        intro hin
        rcases List.mem_append.1 hin with hin | hin
        · exact honce.2.2 _ hin _ (List.mem_map_of_mem htmem) rfl
        · obtain ⟨t', ht', hkey⟩ := List.mem_map.1 hin
          have hne := (List.mem_filter.1 ht').2
          have hsub := congrArg Prod.fst hkey
          dsimp only at hsub
          rw [hsub, htsub] at hne
          simp at hne
      · exact h.drafted _ (List.mem_append_right _ (List.mem_map_of_mem htmem))
      · unfold World.isAppending
        rw [List.any_eq_false]
        intro t' ht'
        obtain ⟨ht'mem, hne⟩ := List.mem_filter.1 ht'
        intro hg
        have hsame : t' = t := List.inj_on_of_nodup_map h.alone ht'mem htmem (by simpa using hg)
        rw [hsame, htsub] at hne
        simp at hne
    · exact hrest

/-! ## The process -/

theorem GatewayOk.process (h : GatewayOk start flipped w) {p : Process}
    (hp : ∀ s ∈ p.submissions, s.isOpen = true → (w.view s.appended.graph).InPlace) :
    GatewayOk start flipped { w with process := p } :=
  ⟨h.graphs, h.once, h.drafted, h.sets, h.onTop, h.alone, hp⟩

theorem GatewayOk.nextCall (h : GatewayOk start flipped w) : GatewayOk start flipped { w with calls := w.calls + 1 } :=
  ⟨h.graphs, h.once, fun key hkey => Nat.lt_succ_of_lt (h.drafted key hkey), h.sets, h.onTop, h.alone, h.opened⟩

theorem GatewayOk.crash (h : GatewayOk start flipped w) : GatewayOk start flipped w.crash :=
  (h.undraft (List.nil_sublist _)).process nofun

theorem initial_ok (live : String → Option StoredGraph) :
    GatewayOk (fun g => ((live g).getD {}).content) (fun _ => False) (World.initial live) where
  graphs _ := {
    entries := rfl
    tiles := rfl
    filled := nofun
    marker := le_refl _
    waiting := nofun
    copies := fun _ hs => absurd rfl hs
    inPlace := fun _ => lags_refl _ _
    swap := nofun }
  once := List.nodup_nil
  drafted := nofun
  sets := nofun
  onTop := nofun
  alone := List.nodup_nil
  opened := nofun

end Moves

end PolicySystem
