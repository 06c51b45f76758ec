import PolicySystem.Gateway.CallSteps

/-!
# Groups over several graphs

* `ends_stageLegs`: the legs are staged one after the other, each over a graph that is caught up;
* `AppendedAll`: what one transaction over several graphs logs;
* `ends_submitMultiGraphGroup`, `multi_graph_commit_atomic`: **a multi-graph group is logged whole or not at all.**
-/

namespace PolicySystem

open Faults Proc PropertyGraph GraphWrite

/-! ## One transaction over several graphs -/

/-- The row of a draft. -/
def newRow (w : World) (swapSet : Option ℕ) (d : GroupDraft) : GroupRow :=
  ⟨d.graph, w.lastPosition d.graph + 1, w.lastPosition d.graph + d.primitives.length, d.submission, swapSet⟩

/-- The entries of a draft. -/
def newEntries (w : World) (d : GroupDraft) : List LogRow :=
  (numbered (w.lastPosition d.graph + 1) d.primitives).map rowOf

/-- **What a transaction logs**: of each draft one group at the next positions of its graph, and nothing else. -/
structure AppendedAll (w : World) (ds : List GroupDraft) (swapSet : Option ℕ) (w' : World) : Prop where
  groups : w'.groups = w.groups ++ ds.map (newRow w swapSet)
  entries : ∀ d ∈ ds, w'.entries d.graph = w.entries d.graph ++ newEntries w d
  others : ∀ g, g ∉ ds.map GroupDraft.graph → w'.entries g = w.entries g

section Append

variable {w : World} {swapSet : Option ℕ}

theorem append_entries (d : GroupDraft) : (w.append d swapSet).2.entries d.graph = w.entries d.graph ++ newEntries w d := by
  unfold World.append newEntries
  dsimp only
  rw [Function.update_self, mapIdx_rowOf]

theorem append_entries_of_ne {d : GroupDraft} {g : String} (h : g ≠ d.graph) :
    (w.append d swapSet).2.entries g = w.entries g := by
  unfold World.append
  dsimp only
  rw [Function.update_of_ne h]

theorem newRow_append_of_ne {d d' : GroupDraft} (h : d'.graph ≠ d.graph) :
    newRow (w.append d swapSet).2 swapSet d' = newRow w swapSet d' := by
  unfold newRow World.lastPosition
  rw [append_entries_of_ne h]

theorem newEntries_append_of_ne {d d' : GroupDraft} (h : d'.graph ≠ d.graph) :
    newEntries (w.append d swapSet).2 d' = newEntries w d' := by
  unfold newEntries World.lastPosition
  rw [append_entries_of_ne h]

theorem appendAll_cons (d : GroupDraft) (ds : List GroupDraft) :
    w.appendAll (d :: ds) swapSet = ((newRow w swapSet d).appended :: ((w.append d swapSet).2.appendAll ds swapSet).1,
      ((w.append d swapSet).2.appendAll ds swapSet).2) := by
  have hgen : ∀ (ds : List GroupDraft) (done : List AppendedGroup) (w : World),
      ds.foldl (fun p draft => (p.1 ++ [(p.2.append draft swapSet).1], (p.2.append draft swapSet).2)) (done, w) =
        (done ++ (w.appendAll ds swapSet).1, (w.appendAll ds swapSet).2) := by
    intro ds
    induction ds with
    | nil => intro done w; simp [World.appendAll]
    | cons d ds ih =>
      intro done w
      have h1 := ih (done ++ [(w.append d swapSet).1]) (w.append d swapSet).2
      have h2 := ih ([] ++ [(w.append d swapSet).1]) (w.append d swapSet).2
      rw [World.appendAll_eq_foldl, List.foldl_cons]
      rw [List.foldl_cons]
      rw [h1, h2]
      simp [World.appendAll]
  rw [World.appendAll_eq_foldl, List.foldl_cons, hgen]
  rfl

/-- Distinct graphs do not see each other's groups. -/
theorem appendAll_all {ds : List GroupDraft} (hnodup : (ds.map GroupDraft.graph).Nodup) :
    AppendedAll w ds swapSet (w.appendAll ds swapSet).2 ∧
      (w.appendAll ds swapSet).1 = ds.map fun d => (newRow w swapSet d).appended := by
  induction ds generalizing w with
  | nil => exact ⟨⟨by simp [World.appendAll], by simp, fun _ _ => rfl⟩, rfl⟩
  | cons d ds ih =>
    rw [List.map_cons, List.nodup_cons] at hnodup
    obtain ⟨h, hfst⟩ := ih hnodup.2 (w := (w.append d swapSet).2)
    have hne : ∀ d' ∈ ds, d'.graph ≠ d.graph := fun d' hd' heq =>
      hnodup.1 (List.mem_map.2 ⟨d', hd', heq⟩)
    rw [appendAll_cons]
    refine ⟨⟨?_, fun d' hd' => ?_, fun g hg => ?_⟩, ?_⟩
    · dsimp only
      rw [h.groups, appended_rows, List.append_assoc, List.map_cons]
      have hrows : ds.map (newRow (w.append d swapSet).2 swapSet) = ds.map (newRow w swapSet) :=
        List.map_congr_left fun d' hd' => newRow_append_of_ne (hne d' hd')
      rw [hrows]
      rfl
    · rcases List.mem_cons.1 hd' with rfl | hd'
      · rw [h.others _ hnodup.1, append_entries]
      · rw [h.entries d' hd', append_entries_of_ne (hne d' hd'), newEntries_append_of_ne (hne d' hd')]
    · rw [List.map_cons, List.mem_cons, not_or] at hg
      rw [h.others g hg.2, append_entries_of_ne hg.1]
    · dsimp only
      rw [hfst, List.map_cons]
      congr 1
      exact List.map_congr_left fun d' hd' => by rw [newRow_append_of_ne (hne d' hd')]

/-- Besides the log nothing changes. -/
theorem appendAll_rest (ds : List GroupDraft) : (w.appendAll ds swapSet).2 =
    { w with entries := (w.appendAll ds swapSet).2.entries, groups := (w.appendAll ds swapSet).2.groups } := by
  induction ds generalizing w with
  | nil => rfl
  | cons d ds ih =>
    rw [appendAll_cons]
    dsimp only
    conv_lhs => rw [ih]
    rfl

end Append

/-! ## Staging the legs -/

section Legs

variable (gw : GraphWriteGateway) {start : String → Graph} {w w' : World}

theorem AppliesOnly.mono {graphs graphs' : List String} (h : AppliesOnly graphs w w') (hsub : graphs ⊆ graphs') :
    AppliesOnly graphs' w w' := ⟨h.toSameLog, fun g hg => h.others g fun hin => hg (hsub hin)⟩

theorem Effective.of_view {group : MutationGroup} {replace : Option Bool} {effective : List Primitive}
    (h : Effective gw w group replace effective) (hview : w'.view group.graph = w.view group.graph) :
    Effective gw w' group replace effective := by
  have hcontent : w'.content group.graph = w.content group.graph := congrArg GraphView.content hview
  have hexpanded : expandedOf gw w' group replace = expandedOf gw w group replace := by
    unfold expandedOf
    rw [hcontent]
  exact ⟨by rw [hview]; exact h.caughtUp, by rw [hcontent, hexpanded]; exact h.selected, by rw [hcontent]; exact h.redoable⟩

def legGraphs (legs : List GraphLeg) : List String := legs.map fun leg => leg.graph

/-- The legs of a group are staged, each over its own graph. -/
theorem ends_stageLegs (hI : Inv start w) {legs : List GraphLeg} (hnodup : (legGraphs legs).Nodup) :
    wp (stageLegs gw legs)
      (Ends (fun staged w' => (Inv start w' ∧ AppliesOnly (legGraphs legs) w w') ∧ staged.map Prod.fst = legs ∧
          ∀ leg ∈ staged, Effective gw w' leg.1.toMutationGroup (some leg.1.replace) leg.2)
        (fun w' => Inv start w' ∧ AppliesOnly (legGraphs legs) w w')) w := by
  induction legs generalizing w with
  | nil => exact wp_pure ⟨⟨hI, AppliesOnly.refl w⟩, rfl, by simp⟩
  | cons leg legs ih =>
    have hcons : legGraphs (leg :: legs) = leg.graph :: legGraphs legs := rfl
    rw [hcons, List.nodup_cons] at hnodup
    have hhead : [leg.graph] ⊆ legGraphs (leg :: legs) := by rw [hcons]; simp
    have htail : legGraphs legs ⊆ legGraphs (leg :: legs) := List.subset_cons_self ..
    unfold stageLegs
    refine ends_bind (ends_mono (ends_stage gw hI leg.toMutationGroup (some leg.replace)
      fun h => leg.upserts (Option.some.inj h)) (fun _ _ h => h) fun w' hw' => ⟨hw'.1, hw'.2.mono hhead⟩) ?_
    rintro effective w₁ ⟨⟨hI₁, hmove₁⟩, heff⟩
    refine ends_bind (ends_mono (ih hI₁ hnodup.2) (fun _ _ h => h) fun w' hw' =>
      ⟨hw'.1, (hmove₁.mono hhead).trans (hw'.2.mono htail)⟩) ?_
    rintro rest w₂ ⟨⟨hI₂, hmove₂⟩, hfst, heffs⟩
    refine wp_pure ⟨⟨hI₂, (hmove₁.mono hhead).trans (hmove₂.mono htail)⟩, by rw [List.map_cons, hfst], fun leg' hleg' => ?_⟩
    rcases List.mem_cons.1 hleg' with rfl | hleg'
    · -- the later legs leave this leg's graph as it is
      exact heff.of_view gw (hmove₂.others _ hnodup.1)
    · exact heffs leg' hleg'

/-! ## The legs after the commit -/

theorem ends_applyLegsInPlace (hI : Inv start w) (appended : List AppendedGroup) {legs : List GraphLeg}
    (hin : ∀ leg ∈ legs, (w.view leg.graph).InPlace) :
    wp (applyLegsInPlace gw appended legs) (Ends (fun _ => Same start w) (Same start w)) w := by
  induction legs generalizing w with
  | nil => exact wp_pure (Same.refl hI)
  | cons leg legs ih =>
    unfold applyLegsInPlace
    refine ends_bind (R := fun _ => Same start w) ?_ fun outcome w₁ hw₁ => ?_
    · unfold applyLegInPlace
      split
      · exact wp_pure (Same.refl hI)
      · rename_i a ha
        have hgraph : a.graph = leg.graph := by simpa using List.find?_some ha
        refine ends_handle (ends_applyCommitted gw hI (by rw [hgraph]; exact hin leg (by simp)) _)
          (fun e w' hw' => ?_) fun _ h => h
        cases e with
        | graphApply g =>
          have hloop : wp ((legs.filter fun rest => appended.any fun a => a.graph = rest.graph).forM fun rest =>
              register rest.graph) (Ends (fun _ => ProcessOnly w') (Same start w)) w' := by
            refine ends_forM (fun _ => ProcessOnly w') (fun _ rest _ _ w'' hw'' => ?_) (ProcessOnly.refl w')
            exact ends_mono (register_ends rest.graph) (fun _ _ h => hw''.trans h) fun _ h => h
          exact ends_bind hloop fun _ w'' hw'' => wp_raise (hw'.process hw'')
        | _ => exact wp_raise hw'
    · refine ends_bind (ends_mono (ih hw₁.1 fun leg' hleg' => hw₁.2.inPlace (hin leg' (List.mem_cons_of_mem _ hleg')))
        (S := fun _ => Same start w) (F := Same start w) (fun _ _ h => hw₁.trans h) fun _ h => hw₁.trans h) ?_
      intro outcomes w₂ hw₂
      exact wp_pure hw₂

/-- No outcome is still to be applied. -/
def Settled (outcomes : List GroupOutcome) : Prop := ∀ o ∈ outcomes, o.status ≠ .committedApplyPending

/-- The legs of a set that is still to be applied answer so. -/
theorem ends_recordLegs (hI : Inv start w) (appended : List AppendedGroup) (status : Bool) (legs : List GraphLeg) :
    wp (recordLegs gw appended status legs) (Ends (fun outcomes w' => Same start w w' ∧
      (Settled outcomes → status = true ∨ ∀ leg ∈ legs, ∀ a ∈ appended, a.graph ≠ leg.graph)) (Same start w)) w := by
  induction legs generalizing w with
  | nil => exact wp_pure ⟨Same.refl hI, fun _ => .inr (by simp)⟩
  | cons leg legs ih =>
    unfold recordLegs
    refine ends_bind (R := fun outcome w' => Same start w w' ∧ (outcome.status ≠ .committedApplyPending →
      status = true ∨ ∀ a ∈ appended, a.graph ≠ leg.graph)) ?_ fun outcome w₁ hw₁ => ?_
    · unfold recordLeg
      split
      · rename_i hnone
        refine wp_pure ⟨Same.refl hI, fun _ => .inr fun a ha heq => ?_⟩
        exact absurd (List.find?_eq_none.1 hnone a ha) (by simpa using heq)
      · have hout : ∀ (a : AppendedGroup) (recorded : Bool), (committedOutcome a
            (if status = true then .applied else .committedApplyPending) leg.checkpointRequested recorded).status ≠
              .committedApplyPending → status = true ∨ ∀ a ∈ appended, a.graph ≠ leg.graph := by
          intro a recorded h
          cases status with
          | true => exact .inl rfl
          | false => exact absurd rfl h
        dsimp only
        split
        · exact ends_bind (ends_recordCheckpoint gw hI _) fun _ _ hw' => wp_pure ⟨hw', hout _ _⟩
        · exact ends_bind (R := fun _ => Same start w) (wp_pure (Same.refl hI)) fun _ _ hw' =>
            wp_pure ⟨hw', hout _ _⟩
    · obtain ⟨hsame, hleg⟩ := hw₁
      refine ends_bind (ends_mono (ih hsame.1) (S := fun outcomes w' => Same start w w' ∧ (Settled outcomes →
        status = true ∨ ∀ leg ∈ legs, ∀ a ∈ appended, a.graph ≠ leg.graph)) (F := Same start w)
        (fun _ _ h => ⟨hsame.trans h.1, h.2⟩) fun _ h => hsame.trans h) ?_
      rintro outcomes w₂ ⟨hw₂, hlegs⟩
      refine wp_pure ⟨hw₂, fun hall => ?_⟩
      have hhead := hleg (hall outcome (by simp))
      have htail := hlegs fun o ho => hall o (List.mem_cons_of_mem _ ho)
      rcases hhead with hhead | hhead
      · exact .inl hhead
      · refine htail.imp_right fun htail leg' hleg' => ?_
        rcases List.mem_cons.1 hleg' with rfl | hleg'
        · exact hhead
        · exact htail leg' hleg'

/-! ## The whole call -/

/-- The drafts of the legs with effective primitives. -/
def draftsOf (call : ℕ) (staged : List (GraphLeg × List Primitive)) : List GroupDraft :=
  (staged.filter fun leg => !leg.2.isEmpty).map fun leg => ⟨leg.1.graph, leg.2, call⟩

/-- **The group is logged whole**: every leg with effective primitives over the graph its log gives, in one
transaction, and no other leg. -/
structure Committed (start : String → Graph) (group : MultiGraphGroup) (w : World)
    (staged : List (GraphLeg × List Primitive)) (w' : World) : Prop where
  legs : staged.map Prod.fst = group.legs
  effective : ∀ leg ∈ staged, selectEffectivePrimitives gw.scan ((w.view leg.1.graph).atLast (start leg.1.graph))
    (expandLeg gw.allow gw.scan ((w.view leg.1.graph).atLast (start leg.1.graph)) leg.1.primitives leg.1.replace) =
      .ok leg.2
  logged : AppendedAll w (draftsOf w.calls staged) (if group.swap then some w.calls else none) w'

/-- **The group changed nothing**: no log, no marker and content but those of a leg that lagged, and these only by
what was logged before. -/
structure Untouched (start : String → Graph) (group : MultiGraphGroup) (w w' : World) : Prop where
  entries : w'.entries = w.entries
  groups : w'.groups = w.groups
  others : ∀ g, g ∉ legGraphs group.legs ∨ (w.view g).CaughtUp → w'.applied g = w.applied g ∧ w'.content g = w.content g
  lagging : ∀ g, (w'.view g).CaughtUp → w'.content g = (w.view g).atLast (start g)

theorem legGraphs_nodup (group : MultiGraphGroup) : (legGraphs group.legs).Nodup := by
  have := group.ascending.map (fun leg : GraphLeg => leg.graph) (S := fun a b => a < b) fun _ _ h => h
  exact this.imp fun h => ne_of_lt h

theorem untouched_of_moved (hI : Inv start w) {group : MultiGraphGroup} (hI' : Inv start w')
    (hmove : AppliesOnly (legGraphs group.legs) { w with calls := w.calls + 1 } w') : Untouched start group w w' := by
  obtain ⟨flipped, hok⟩ := hI
  obtain ⟨flipped', hok'⟩ := hI'
  have hlast : ∀ g, (w'.view g).CaughtUp → w'.content g = (w.view g).atLast (start g) := by
    intro g hc
    have := (hok'.graphs g).content_eq hc
    unfold GraphView.atLast at this ⊢
    rw [hmove.logged] at this
    exact this
  refine ⟨hmove.entries, hmove.groups, fun g hg => ?_, hlast⟩
  rcases hg with hg | hc
  · have hview := hmove.others g hg
    exact ⟨congrArg GraphView.applied hview, congrArg GraphView.content hview⟩
  · -- a graph that was caught up still is, and shows the same log
    have hc' : (w'.view g).CaughtUp :=
      @caughtUp_forward start flipped' { w with calls := w.calls + 1 } w' g hmove.toSameLog (hok'.graphs g) hc
    refine ⟨?_, ?_⟩
    · have h1 : w.applied g = (w.view g).logged.length := hc
      have h2 : w'.applied g = (w'.view g).logged.length := hc'
      rw [h1, h2, hmove.logged]
      rfl
    · rw [hlast g hc']
      exact ((hok.graphs g).content_eq hc).symm

theorem AppendedAll.congr {ds : List GroupDraft} {swapSet : Option ℕ} {w₁ w₂ : World}
    (h : AppendedAll w₁ ds swapSet w₂) (he : w₁.entries = w.entries) (hg : w₁.groups = w.groups)
    (hsame : SameLog w₂ w') : AppendedAll w ds swapSet w' := by
  have hrow : newRow w₁ swapSet = newRow w swapSet := by
    funext d
    unfold newRow World.lastPosition
    rw [he]
  have hentries : newEntries w₁ = newEntries w := by
    funext d
    unfold newEntries World.lastPosition
    rw [he]
  exact ⟨by rw [hsame.groups, h.groups, hg, hrow], fun d hd => by rw [hsame.entries, h.entries d hd, he, hentries],
    fun g hg' => by rw [hsame.entries, h.others g hg', he]⟩

theorem draftsOf_graphs {legs : List GraphLeg} {call : ℕ} {staged : List (GraphLeg × List Primitive)}
    (hfst : staged.map Prod.fst = legs) (hnodup : (legGraphs legs).Nodup) :
    ((draftsOf call staged).map GroupDraft.graph).Nodup := by
  unfold draftsOf
  rw [List.map_map]
  have hsub : ((staged.filter fun leg => !leg.2.isEmpty).map fun leg => leg.1.graph).Sublist (legGraphs legs) := by
    unfold legGraphs
    rw [← hfst, List.map_map]
    exact List.filter_sublist.map _
  exact hnodup.sublist hsub

theorem mem_draftsOf {call : ℕ} {staged : List (GraphLeg × List Primitive)} {d : GroupDraft}
    (h : d ∈ draftsOf call staged) : ∃ leg ∈ staged, leg.2 ≠ [] ∧ ⟨leg.1.graph, leg.2, call⟩ = d := by
  unfold draftsOf at h
  obtain ⟨leg, hleg, rfl⟩ := List.mem_map.1 h
  obtain ⟨hleg, hne⟩ := List.mem_filter.1 hleg
  exact ⟨leg, hleg, by simpa using hne, rfl⟩

theorem mem_draftsOf_of {call : ℕ} {staged : List (GraphLeg × List Primitive)} {leg : GraphLeg × List Primitive}
    (h : leg ∈ staged) (hne : leg.2 ≠ []) : ⟨leg.1.graph, leg.2, call⟩ ∈ draftsOf call staged :=
  List.mem_map.2 ⟨leg, List.mem_filter.2 ⟨h, by simpa using hne⟩, rfl⟩

/-- A graph is staged once. -/
theorem staged_unique {legs : List GraphLeg} {staged : List (GraphLeg × List Primitive)}
    (hfst : staged.map Prod.fst = legs) (hnodup : (legGraphs legs).Nodup) {a b : GraphLeg × List Primitive}
    (ha : a ∈ staged) (hb : b ∈ staged) (h : a.1.graph = b.1.graph) : a = b := by
  have hmap : (staged.map fun leg => leg.1.graph).Nodup := by
    unfold legGraphs at hnodup
    rw [← hfst, List.map_map] at hnodup
    exact hnodup
  exact List.inj_on_of_nodup_map hmap ha hb h

/-- The log of a leg's graph ends with the leg's effective primitives, none or more. -/
theorem Committed.atLast {group : MultiGraphGroup} {staged : List (GraphLeg × List Primitive)}
    (h : Committed gw start group w staged w') {leg : GraphLeg × List Primitive} (hleg : leg ∈ staged) :
    (w'.view leg.1.graph).atLast (start leg.1.graph) =
      applyAll ((w.view leg.1.graph).atLast (start leg.1.graph)) leg.2 := by
  have hlogged : (w'.view leg.1.graph).logged = (w.view leg.1.graph).logged ++ leg.2 := by
    unfold GraphView.logged World.view
    dsimp only
    by_cases hne : leg.2 = []
    · -- a leg with nothing effective logs nothing
      have hnot : leg.1.graph ∉ (draftsOf w.calls staged).map GroupDraft.graph := by
        intro hin
        obtain ⟨d, hd, hgraph⟩ := List.mem_map.1 hin
        obtain ⟨other, hother, hother_ne, rfl⟩ := mem_draftsOf hd
        rw [staged_unique h.legs (legGraphs_nodup group) hother hleg hgraph] at hother_ne
        exact hother_ne hne
      rw [h.logged.others _ hnot, hne, List.append_nil]
    · have hentries := h.logged.entries _ (@mem_draftsOf_of w.calls _ _ hleg hne)
      dsimp only at hentries
      rw [hentries, List.filterMap_append]
      congr 1
      unfold newEntries
      rw [primitives_rowOf, map_snd_numbered]
  unfold GraphView.atLast
  rw [hlogged, applyAll_append]

/-- The swap sets renamed do not count a set that is not logged yet. -/
theorem GatewayOk.unflip {flipped : ℕ → Prop} (h : GatewayOk start flipped w) {s : ℕ}
    (hnone : ∀ r ∈ w.groups, r.swapSet ≠ some s) : GatewayOk start (fun s' => flipped s' ∧ s' ≠ s) w := by
  refine h.of_sameLog (SameLog.refl w) fun g => ?_
  have hg := h.graphs g
  have hne : ∀ r ∈ (w.view g).rows, ∀ s', r.swapSet = some s' → s' ≠ s := by
    rintro r hr s' hs' rfl
    exact hnone r (mem_rows.1 hr).1 hs'
  exact {
    entries := hg.entries
    tiles := hg.tiles
    filled := hg.filled
    marker := hg.marker
    waiting := fun r hr s' hs' hf => hg.waiting r hr s' hs' fun hf' => hf ⟨hf', hne r hr s' hs'⟩
    copies := hg.copies
    inPlace := hg.inPlace
    swap := fun r hr s' hs' hlt => by
      have hswap := hg.swap r hr s' hs' hlt
      exact ⟨hswap.first, hswap.last, hswap.alone, hswap.redo,
        fun hf => hswap.before fun hf' => hf ⟨hf', hne r hr s' hs'⟩, fun hf => hswap.after hf.1⟩ }

/-- A staged leg is one of the group's. -/
theorem staged_graph {group : MultiGraphGroup} {staged : List (GraphLeg × List Primitive)}
    (hfst : staged.map Prod.fst = group.legs) {leg : GraphLeg × List Primitive} (hleg : leg ∈ staged) :
    leg.1.graph ∈ legGraphs group.legs := by
  unfold legGraphs
  rw [← hfst, List.map_map]
  exact List.mem_map_of_mem (f := fun leg : GraphLeg × List Primitive => leg.1.graph) hleg

/-- **The append of a multi-graph group.** -/
theorem appendAll_ok {group : MultiGraphGroup} {call : ℕ} {staged : List (GraphLeg × List Primitive)}
    (hI : Inv start w) (hfst : staged.map Prod.fst = group.legs)
    (heff : ∀ leg ∈ staged, Effective gw w leg.1.toMutationGroup (some leg.1.replace) leg.2)
    (hfresh : ∀ g, (call, g) ∉ w.keys) (hcall : call < w.calls)
    (hheld : ∀ g ∈ legGraphs group.legs, w.holds g = false)
    (hfree : ∀ d ∈ draftsOf call staged, w.isAppending d.graph = false) (swapSet : Option ℕ)
    (hset : ∀ s, swapSet = some s → s = call) :
    ∃ flipped, GatewayOk start flipped (w.appendAll (draftsOf call staged) swapSet).2 ∧ ¬ flipped call := by
  obtain ⟨flipped, hok⟩ := hI
  have hnew : ∀ r ∈ w.groups, r.swapSet ≠ some call := by
    intro r hr hrs
    have hsub := hok.sets r hr call hrs
    refine hfresh r.graph (List.mem_append_left _ (List.mem_map.2 ⟨r, hr, ?_⟩))
    rw [hsub]
  refine ⟨_, (hok.unflip hnew).appendAll (draftsOf_graphs hfst (legGraphs_nodup group)) fun d hd => ?_, fun h => h.2 rfl⟩
  have hd' := hd
  unfold draftsOf at hd'
  obtain ⟨leg, hleg, rfl⟩ := List.mem_map.1 hd'
  obtain ⟨hleg, hne⟩ := List.mem_filter.1 hleg
  have hstaged := heff leg hleg
  have hgraph : leg.1.graph ∈ legGraphs group.legs := staged_graph hfst hleg
  refine ⟨?_, hstaged.caughtUp, hfresh _, hcall, hfree _ hd, fun s hs => ?_⟩
  · intro hnil
    dsimp only at hnil
    rw [hnil] at hne
    simp at hne
  · rw [hset s hs]
    exact ⟨rfl, fun h => h.2 rfl, hheld _ hgraph, hstaged.redoable (by simp)⟩

/-- **The effective legs are logged** in one write, or not at all. -/
theorem ends_appendLegs {group : MultiGraphGroup} {call : ℕ} {staged : List (GraphLeg × List Primitive)}
    {E : World → Prop} {g : String} (hI : Inv start w) (hfst : staged.map Prod.fst = group.legs)
    (heff : ∀ leg ∈ staged, Effective gw w leg.1.toMutationGroup (some leg.1.replace) leg.2)
    (hfresh : ∀ g, (call, g) ∉ w.keys) (hcall : call < w.calls)
    (hheld : ∀ g ∈ legGraphs group.legs, w.holds g = false) (swapSet : Option ℕ)
    (hset : ∀ s, swapSet = some s → s = call) (hE : E w)
    (hlogged : (∀ d ∈ draftsOf call staged, w.isAppending d.graph = false) →
      Inv start (w.appendAll (draftsOf call staged) swapSet).2 → E (w.appendAll (draftsOf call staged) swapSet).2) :
    wp (guardCall gw g (appendGroupsStandalone (draftsOf call staged) swapSet)) (Ends (fun appended w' =>
      ((∃ flipped, GatewayOk start flipped w' ∧ ¬ flipped call) ∧ E w') ∧
        w' = (w.appendAll (draftsOf call staged) swapSet).2 ∧
        appended = (draftsOf call staged).map fun d => (newRow w swapSet d).appended) E) w := by
  refine ends_guardWrite gw (fun appended w' hw' => ?_) hE
  split at hw'
  · cases hw'
  rename_i hany
  have hresult := Option.some.inj hw'
  obtain ⟨rfl, rfl⟩ : appended = (w.appendAll (draftsOf call staged) swapSet).1 ∧
      w' = (w.appendAll (draftsOf call staged) swapSet).2 := by
    rw [hresult]
    exact ⟨rfl, rfl⟩
  -- no transaction is appending to a leg's graph
  have hfree : ∀ d ∈ draftsOf call staged, w.isAppending d.graph = false := by
    intro d hd
    rw [Bool.not_eq_true, List.any_eq_false] at hany
    simpa using hany d hd
  have hok := appendAll_ok gw hI hfst heff hfresh hcall hheld hfree swapSet hset
  have hE' := hlogged hfree (hok.imp fun _ h => h.1)
  have hnodup : ((draftsOf call staged).map GroupDraft.graph).Nodup := draftsOf_graphs hfst (legGraphs_nodup group)
  exact ⟨⟨⟨hok, hE'⟩, rfl, (@appendAll_all w swapSet _ hnodup).2⟩, hE'⟩

/-- The rows a swap set is logged with are its waiting legs. -/
theorem swapLegs_of_appended {ds : List GroupDraft} {call : ℕ} {w₁ : World}
    (happ : AppendedAll w₁ ds (some call) w) (hnone : ∀ r ∈ w₁.groups, r.swapSet ≠ some call)
    (hmarker : ∀ d ∈ ds, w.applied d.graph = w₁.lastPosition d.graph ∧ d.primitives ≠ []) :
    SwapLegs w call (ds.map fun d => (newRow w₁ (some call) d).appended) := by
  refine ⟨fun leg hleg => ?_, fun r hr hrs _ => ?_⟩
  · obtain ⟨d, hd, rfl⟩ := List.mem_map.1 hleg
    refine ⟨newRow w₁ (some call) d, ?_, rfl, rfl, ?_⟩
    · rw [happ.groups]
      exact List.mem_append_right _ (List.mem_map_of_mem hd)
    · have hpos := List.length_pos_iff.2 (hmarker d hd).2
      have happlied := (hmarker d hd).1
      unfold newRow
      dsimp only
      omega
  · rw [happ.groups] at hr
    rcases List.mem_append.1 hr with hr | hr
    · exact absurd hrs (hnone r hr)
    · obtain ⟨d, hd, rfl⟩ := List.mem_map.1 hr
      rw [List.map_map]
      exact List.mem_map.2 ⟨d, hd, rfl⟩

/-- The legs of a call are the waiting legs of its swap set. -/
theorem swapLegs_of_staged {call : ℕ} {staged : List (GraphLeg × List Primitive)} {w₁ : World} (hI : Inv start w₁)
    (heff : ∀ leg ∈ staged, Effective gw w₁ leg.1.toMutationGroup (some leg.1.replace) leg.2)
    (hfresh : ∀ g, (call, g) ∉ w₁.keys) (happ : AppendedAll w₁ (draftsOf call staged) (some call) w)
    (happlied : w.applied = w₁.applied) :
    SwapLegs w call ((draftsOf call staged).map fun d => (newRow w₁ (some call) d).appended) := by
  obtain ⟨flipped, hok⟩ := hI
  refine swapLegs_of_appended happ (fun r hr hrs => ?_) fun d hd => ?_
  · have hsub := hok.sets r hr _ hrs
    exact hfresh r.graph (List.mem_append_left _ (List.mem_map.2 ⟨r, hr, by rw [hsub]⟩))
  · obtain ⟨leg, hleg, hne, rfl⟩ := mem_draftsOf hd
    have hcaught : w₁.applied leg.1.graph = (w₁.view leg.1.graph).logged.length := (heff leg hleg).caughtUp
    refine ⟨?_, hne⟩
    rw [lastPosition_eq (hok.graphs leg.1.graph), ← hcaught, happlied]

/-- A graph that was caught up is applied in place after groups that are not to be swapped. -/
theorem inPlace_appended {ds : List GroupDraft} {w₁ : World} {g : String} (happ : AppendedAll w₁ ds none w)
    (happlied : w.applied = w₁.applied) (hin : (w₁.view g).InPlace) : (w.view g).InPlace := by
  intro r hr hrs
  obtain ⟨hr, hrg⟩ := mem_rows.1 hr
  rw [happ.groups] at hr
  rw [view_applied, happlied]
  rcases List.mem_append.1 hr with hr | hr
  · exact hin r (mem_rows.2 ⟨hr, hrg⟩) hrs
  · obtain ⟨d, -, rfl⟩ := List.mem_map.1 hr
    exact absurd rfl hrs

/-- A draft's graph has its primitives logged last. -/
theorem logged_appended {ds : List GroupDraft} {swapSet : Option ℕ} {w₁ : World} (happ : AppendedAll w₁ ds swapSet w)
    {d : GroupDraft} (hd : d ∈ ds) : (w.view d.graph).logged = (w₁.view d.graph).logged ++ d.primitives := by
  unfold GraphView.logged World.view
  dsimp only
  rw [happ.entries d hd, List.filterMap_append]
  unfold newEntries
  rw [primitives_rowOf, map_snd_numbered]

/-- The invariant holds, and the group is logged whole or changed nothing. -/
def Atomic (start : String → Graph) (group : MultiGraphGroup) (w w' : World) : Prop :=
  Inv start w' ∧ (Untouched start group w w' ∨
    w'.groups ≠ w.groups ∧ ∃ staged, Committed gw start group w staged w')

theorem atomic_of_committed {group : MultiGraphGroup} {staged : List (GraphLeg × List Primitive)} (hI : Inv start w')
    (h : Committed gw start group w staged w') (hne : draftsOf w.calls staged ≠ []) : Atomic gw start group w w' := by
  refine ⟨hI, .inr ⟨fun heq => ?_, staged, h⟩⟩
  have hgroups := h.logged.groups
  rw [heq] at hgroups
  exact hne (List.map_eq_nil_iff.1 (List.self_eq_append_right.1 hgroups))

/-- The graphs of a swapped group are caught up once none of its legs is still to be applied. -/
def CaughtUpOnce (group : MultiGraphGroup) (outcomes : List GroupOutcome) (w : World) : Prop :=
  group.swap = true → Settled outcomes → ∀ leg ∈ group.legs, (w.view leg.graph).CaughtUp

/-- A marker that is not short of the log is at its end. -/
theorem caughtUp_of_le (hI : Inv start w) {g : String} (h : (w.view g).logged.length ≤ w.applied g) :
    (w.view g).CaughtUp := by
  obtain ⟨flipped, hok⟩ := hI
  exact le_antisymm (hok.graphs g).marker h

/-- **`submit_multi_graph_group`** keeps the invariant; it has logged the group whole or changed nothing. -/
theorem ends_submitMultiGraphGroup (hI : Inv start w) (group : MultiGraphGroup) :
    wp (submitMultiGraphGroup gw group)
      (Ends (fun outcomes w' => Atomic gw start group w w' ∧ (∃ staged, Committed gw start group w staged w') ∧
        CaughtUpOnce group outcomes w' ∧ LogsOnly (legGraphs group.legs) w w') (Atomic gw start group w)) w := by
  have hself : Untouched start group w w := by
    have := hI
    obtain ⟨flipped, hok⟩ := this
    exact ⟨rfl, rfl, fun _ _ => ⟨rfl, rfl⟩, fun g hc => (hok.graphs g).content_eq hc⟩
  unfold submitMultiGraphGroup
  refine ends_bind (ends_lockAll _ ⟨hI, .inl hself⟩) ?_
  rintro - _ ⟨rfl, hheld⟩
  refine ends_bind ends_nextCall ?_
  rintro _ _ ⟨rfl, rfl⟩
  have hfresh := fresh_of_calls hI
  refine ends_bind (ends_mono (ends_stageLegs gw hI.nextCall (legGraphs_nodup group)) (fun _ _ h => h)
    fun w' hw' => ⟨hw'.1, .inl (untouched_of_moved hI hw'.1 hw'.2)⟩) ?_
  rintro staged w₁ ⟨⟨hI₁, hmove⟩, hfst, heff⟩
  have huntouched := untouched_of_moved hI hI₁ hmove
  have heffective : ∀ leg ∈ staged, selectEffectivePrimitives gw.scan
      ((w.view leg.1.graph).atLast (start leg.1.graph)) (expandLeg gw.allow gw.scan
        ((w.view leg.1.graph).atLast (start leg.1.graph)) leg.1.primitives leg.1.replace) = .ok leg.2 := by
    intro leg hleg
    have hsel := (heff leg hleg).selected
    unfold expandedOf at hsel
    dsimp only at hsel
    rw [huntouched.lagging leg.1.graph (heff leg hleg).caughtUp] at hsel
    exact hsel
  dsimp only
  split
  · -- nothing effective: nothing to log
    rename_i hnone
    have hdrafts : draftsOf w.calls staged = [] := by
      unfold draftsOf
      rw [List.isEmpty_iff.1 hnone, List.map_nil]
    refine wp_pure ⟨⟨hI₁, .inl huntouched⟩, ⟨staged, hfst, heffective, ?_⟩, fun _ _ leg hleg => ?_,
      fun g _ => congrFun hmove.entries g, hmove.forward⟩
    · rw [hdrafts]
      exact ⟨by simp [huntouched.groups], by simp, fun g _ => by rw [huntouched.entries]⟩
    · rw [← hfst] at hleg
      obtain ⟨leg', hleg', rfl⟩ := List.mem_map.1 hleg
      exact (heff leg' hleg').caughtUp
  rename_i hsome
  have hsome : draftsOf w.calls staged ≠ [] := by
    intro hnil
    unfold draftsOf at hnil
    exact hsome (List.isEmpty_iff.2 (List.map_eq_nil_iff.1 hnil))
  change wp (guardCall gw _ (appendGroupsStandalone (draftsOf w.calls staged)
    (if group.swap then some w.calls else none)) >>= _) _ w₁
  have hcalls : w₁.calls = w.calls + 1 := hmove.calls
  have hkeys : ∀ g, (w.calls, g) ∉ w₁.keys := by
    intro g
    rw [hmove.keys]
    exact hfresh g
  have hnodup : ((draftsOf w.calls staged).map GroupDraft.graph).Nodup :=
    draftsOf_graphs hfst (legGraphs_nodup group)
  refine ends_bind (ends_appendLegs gw hI₁ hfst heff hkeys (by omega)
    (fun g hg => by rw [hmove.holds]; exact hheld g hg) (if group.swap then some w.calls else none) (fun s hs => ?_)
    ⟨hI₁, .inl huntouched⟩ fun hfree hI₂ => ?_) ?_
  · split at hs
    · exact (Option.some.inj hs).symm
    · cases hs
  · obtain ⟨happ, -⟩ := @appendAll_all w₁ (if group.swap then some w.calls else none) _ hnodup
    exact atomic_of_committed gw hI₂ ⟨hfst, heffective, happ.congr hmove.entries hmove.groups (SameLog.refl _)⟩ hsome
  · rintro appended w₂ ⟨⟨⟨flipped, hok₂, hflipped⟩, -⟩, hw₂, happended⟩
    obtain ⟨happ, -⟩ := @appendAll_all w₁ (if group.swap then some w.calls else none) _ hnodup
    have hrest := @appendAll_rest w₁ (if group.swap then some w.calls else none) (draftsOf w.calls staged)
    rw [← hw₂] at happ hrest
    have hcommitted : ∀ w', Same start w₂ w' → Committed gw start group w staged w' := fun w' hw' =>
      ⟨hfst, heffective, happ.congr hmove.entries hmove.groups hw'.2⟩
    have honly : ∀ w', Same start w₂ w' → LogsOnly (legGraphs group.legs) w w' := by
      intro w' hw'
      refine ⟨fun g hg => ?_, fun g => ?_⟩
      · refine (happ.congr hmove.entries hmove.groups hw'.2).others g fun hmem => hg ?_
        obtain ⟨d, hd, rfl⟩ := List.mem_map.1 hmem
        obtain ⟨leg, hleg, -, rfl⟩ := mem_draftsOf hd
        exact staged_graph hfst hleg
      · have h₁ := hmove.forward g
        have h₂ := hw'.2.forward g
        rw [hrest] at h₂
        exact h₁.trans h₂
    have hatomic : ∀ w', Same start w₂ w' → Atomic gw start group w w' := fun w' hw' =>
      atomic_of_committed gw hw'.1 (hcommitted w' hw') hsome
    by_cases hswap : group.swap = true
    · rw [if_pos hswap] at happ happended ⊢
      dsimp only
      have hlegs : SwapLegs w₂ w.calls appended := by
        rw [happended]
        exact swapLegs_of_staged gw hI₁ heff hkeys happ (by rw [hrest])
      unfold applyLegsBySwap
      refine ends_mono (R := fun outcomes w' => Same start w₂ w' ∧ (Settled outcomes → Advanced appended w'))
        (E := Same start w₂) ?_ (fun outcomes w' hw' => ⟨hatomic w' hw'.1, ⟨staged, hcommitted w' hw'.1⟩,
          fun _ hall leg hleg => ?_, honly w' hw'.1⟩) hatomic
      · refine ends_bind (ends_swapUnit gw ⟨flipped, hok₂⟩ hlegs) fun status w₃ hw₃ => ?_
        refine ends_mono (ends_recordLegs gw hw₃.1.1 appended status group.legs) (fun outcomes w' hw' => ?_)
          fun _ h => hw₃.1.trans h
        refine ⟨hw₃.1.trans hw'.1, fun hall => ?_⟩
        rcases hw'.2 hall with hstatus | hnone
        · exact (hw₃.2 hstatus).forward hw'.1.2
        · -- every appended group is one of a leg
          intro a ha
          rw [happended] at ha
          obtain ⟨d, hd, rfl⟩ := List.mem_map.1 ha
          obtain ⟨leg, hleg, -, hgraph⟩ := mem_draftsOf hd
          have hmem : leg.1 ∈ group.legs := by rw [← hfst]; exact List.mem_map_of_mem hleg
          have happ' : (newRow w₁ (some w.calls) d).appended ∈ appended := by
            rw [happended]
            exact List.mem_map_of_mem hd
          have hsame : leg.1.graph = d.graph := congrArg GroupDraft.graph hgraph
          exact absurd hsame.symm (hnone leg.1 hmem _ happ')
      · rw [← hfst] at hleg
        obtain ⟨leg', hleg', rfl⟩ := List.mem_map.1 hleg
        obtain ⟨hsame, hadvanced⟩ := hw'
        by_cases hnil : leg'.2 = []
        · -- nothing was logged for the leg
          have hnot : leg'.1.graph ∉ (draftsOf w.calls staged).map GroupDraft.graph := by
            intro hmem
            obtain ⟨d, hd, hgraph⟩ := List.mem_map.1 hmem
            obtain ⟨other, hother, hne, rfl⟩ := mem_draftsOf hd
            exact hne ((staged_unique hfst (legGraphs_nodup group) hother hleg' hgraph) ▸ hnil)
          have hentries : w₂.entries leg'.1.graph = w₁.entries leg'.1.graph := happ.others _ hnot
          have hcaught : (w₂.view leg'.1.graph).CaughtUp := by
            have hc := (heff leg' hleg').caughtUp
            unfold GraphView.CaughtUp GraphView.logged at hc ⊢
            simp only [World.view] at hc ⊢
            rw [hentries, hrest]
            exact hc
          obtain ⟨flipped', hok'⟩ := hsame.1
          exact caughtUp_forward hsame.2 (hok'.graphs _) hcaught
        · have hd : (⟨leg'.1.graph, leg'.2, w.calls⟩ : GroupDraft) ∈ draftsOf w.calls staged :=
            mem_draftsOf_of hleg' hnil
          have hmarker := hadvanced hall _ (by rw [happended]; exact List.mem_map_of_mem hd)
          refine caughtUp_of_le hsame.1 (le_trans (le_of_eq ?_) hmarker)
          obtain ⟨flipped₁, hok₁⟩ := hI₁
          rw [hsame.2.logged]
          have hlast := lastPosition_eq (hok₁.graphs leg'.1.graph)
          have hlogged : (w₂.view leg'.1.graph).logged = (w₁.view leg'.1.graph).logged ++ leg'.2 :=
            logged_appended happ hd
          rw [hlogged, List.length_append]
          show _ = w₁.lastPosition leg'.1.graph + leg'.2.length
          rw [hlast]
    · rw [if_neg hswap] at happ happended ⊢
      dsimp only
      refine ends_mono (ends_applyLegsInPlace gw ⟨flipped, hok₂⟩ appended fun leg hleg => ?_)
        (fun _ w' hw' => ⟨hatomic w' hw', ⟨staged, hcommitted w' hw'⟩, fun h => absurd h hswap,
          honly w' hw'⟩) hatomic
      -- the leg was caught up, and its new group is not to be swapped
      rw [← hfst] at hleg
      obtain ⟨leg', hleg', rfl⟩ := List.mem_map.1 hleg
      obtain ⟨flipped₁, hok₁⟩ := hI₁
      exact inPlace_appended happ (by rw [hrest]) ((heff leg' hleg').caughtUp.inPlace (hok₁.graphs _))

end Legs

end PolicySystem
