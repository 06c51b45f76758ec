import PolicySystem.Gateway.SwapSteps

/-!
# Each call keeps the invariant

* `ends_submitGroup`, `ends_catchUp`, `ends_complete`, ...: one lemma per call;
* `UnitOk`, `ends_resolveUnit`: what a graph is applied together with.
-/

namespace PolicySystem

open Faults Proc PropertyGraph GraphWrite

section Calls

variable (gw : GraphWriteGateway) {start : String → Graph} {w w' : World} {g : String}

theorem Same.refl (h : Inv start w) : Same start w w := ⟨h, SameLog.refl w⟩

theorem Same.trans {w'' : World} (h : Same start w w') (h' : Same start w' w'') : Same start w w'' :=
  ⟨h'.1, h.2.trans h'.2⟩

theorem ends_lockAll (graphs : List String) {E : World → Prop} (hE : E w) :
    wp (lockAll graphs) (Ends (fun _ w' => w = w' ∧ ∀ g ∈ graphs, w.holds g = false) E) w := by
  unfold lockAll
  refine ends_bind (R := fun w₀ w' => w = w₀ ∧ w = w') (wp_get ⟨rfl, rfl⟩) ?_
  rintro _ _ ⟨rfl, rfl⟩
  split
  · exact wp_raise hE
  · rename_i hfree
    refine wp_pure ⟨rfl, fun g hg => ?_⟩
    simp only [Bool.not_eq_true, List.any_eq_false] at hfree
    simpa using hfree g hg

theorem ends_nextCall {E : World → Prop} :
    wp nextCall (Ends (fun call w' => call = w.calls ∧ w' = { w with calls := w.calls + 1 }) E) w := by
  unfold nextCall
  refine ends_bind (R := fun w₀ w' => w = w₀ ∧ w = w') (wp_get ⟨rfl, rfl⟩) ?_
  rintro _ _ ⟨rfl, rfl⟩
  have hmodify : wp (modify fun w : World => { w with calls := w.calls + 1 } : Gw Unit)
      (Ends (fun _ w' => w' = { w with calls := w.calls + 1 }) E) w := wp_modify rfl
  refine ends_bind hmodify ?_
  rintro - _ rfl
  exact wp_pure ⟨rfl, rfl⟩

theorem Inv.nextCall (h : Inv start w) : Inv start { w with calls := w.calls + 1 } := h.imp fun _ h => h.nextCall

/-- No group of the log or of a transaction is a later call's. -/
theorem fresh_of_calls (h : Inv start w) (g : String) : (w.calls, g) ∉ w.keys := by
  obtain ⟨flipped, hok⟩ := h
  intro hin
  exact absurd (hok.drafted _ hin) (lt_irrefl _)

/-! ## Applying what is committed -/

theorem ends_recordCheckpoint (hI : Inv start w) (appended : AppendedGroup) :
    wp (recordCheckpoint gw appended) (Ends (fun _ => Same start w) (Same start w)) w := by
  unfold recordCheckpoint
  refine ends_handle (F := Same start w) ?_ (fun e w' hw' => ?_) fun _ h => h
  · refine ends_bind (R := fun _ w' => w = w') (ends_graphRead rfl (Same.refl hI)) ?_
    rintro digest _ rfl
    refine ends_bind (R := fun _ => Same start w) ?_ fun _ w' hw' => wp_pure hw'
    refine ends_logWrite (fun u w' hw' => ?_) (Same.refl hI)
    split at hw'
    · cases hw'
    cases hw'
    have hsame : Same start w { w with
        checkpoints := w.checkpoints ++ [⟨appended.graph, appended.lastPosition, digest⟩] } := by
      obtain ⟨flipped, hok⟩ := hI
      have hlog : SameLog w { w with
          checkpoints := w.checkpoints ++ [⟨appended.graph, appended.lastPosition, digest⟩] } :=
        ⟨rfl, rfl, rfl, rfl, rfl, fun _ => le_refl _⟩
      exact ⟨⟨flipped, hok.of_sameLog hlog hok.graphs⟩, hlog⟩
    exact ⟨hsame, hsame⟩
  · cases e with
    | connection => exact wp_pure hw'
    | redis => exact wp_pure hw'
    | logPersistence => exact wp_pure hw'
    | logUnavailable => exact wp_pure hw'
    | _ => exact wp_raise hw'

theorem ends_applyCommitted (hI : Inv start w) {appended : AppendedGroup} (hin : (w.view appended.graph).InPlace)
    (requested : Bool) : wp (applyCommitted gw appended requested) (Ends (fun _ => Same start w) (Same start w)) w := by
  unfold applyCommitted
  refine ends_bind (R := fun _ => Same start w) ?_ fun status w₁ hw₁ => ?_
  · refine ends_handle (F := Same start w) ?_ (fun e w' hw' => ?_) fun _ h => h
    · refine ends_bind (ends_mono (ends_applyPending gw hI hin) (S := fun _ => Same start w) (F := Same start w)
        (fun _ _ h => ⟨h.1.1, h.1.2.toSameLog⟩) fun _ h => ⟨h.1, h.2.toSameLog⟩) fun _ w' hw' => wp_pure hw'
    · split
      · exact ends_bind (register_ends _) fun _ w'' hw'' => wp_pure (hw'.process hw'')
      · exact wp_raise hw'
  · have hrecord : wp (recordCheckpoint gw appended) (Ends (fun _ => Same start w) (Same start w)) w₁ :=
      ends_mono (ends_recordCheckpoint gw hw₁.1 appended) (fun _ _ h => hw₁.trans h) fun _ h => hw₁.trans h
    dsimp only
    split
    · exact ends_bind hrecord fun _ w' hw' => wp_pure hw'
    · exact ends_bind (R := fun _ => Same start w) (wp_pure hw₁) fun _ w' hw' => wp_pure hw'

/-! ## One graph -/

/-- A group on one graph that was staged: its graph is caught up and its call is new to the log. -/
theorem ends_staged (hI : Inv start w) (group : MutationGroup) {E : World → Prop}
    (hE : ∀ w', Moved start group.graph { w with calls := w.calls + 1 } w' → E w') :
    wp (stage gw group none) (Ends (fun _ w' => Inv start w' ∧ (w'.view group.graph).CaughtUp ∧
      w'.calls = w.calls + 1 ∧ (w.calls, group.graph) ∉ w'.keys ∧ w'.process.submissions = w.process.submissions ∧
      LogsOnly [group.graph] w w') E) { w with calls := w.calls + 1 } := by
  have hfresh := fresh_of_calls hI group.graph
  refine ends_mono (ends_stage gw hI.nextCall group none nofun) (fun effective w' hw' => ?_) hE
  obtain ⟨⟨hI', hmove⟩, heff⟩ := hw'
  exact ⟨hI', heff.caughtUp, hmove.calls, by rw [hmove.keys]; exact hfresh, hmove.submissions,
    fun g _ => congrFun hmove.entries g, hmove.forward⟩

/-- A group that is not to be swapped leaves its graph applied in place. -/
theorem inPlace_append {start : Graph} {flipped : ℕ → Prop} {d : GroupDraft} (h : GraphOk start flipped (w.view d.graph))
    (hin : (w.view d.graph).InPlace) : ((w.append d none).2.view d.graph).InPlace := by
  rw [@view_append (fun _ => start) flipped w d none h]
  intro r hr hs
  rcases List.mem_append.1 hr with hr | hr
  · exact hin r hr hs
  · rw [List.mem_singleton.1 hr] at hs
    exact absurd rfl hs

/-- **`submit_group`** keeps the invariant and logs to its own graph. -/
theorem ends_submitGroup (hI : Inv start w) (group : MutationGroup) :
    wp (submitGroup gw group)
      (Ends (fun _ w' => Inv start w' ∧ LogsOnly [group.graph] w w') (Inv start)) w := by
  unfold submitGroup
  refine ends_bind (ends_lockAll _ hI) ?_
  rintro - _ ⟨rfl, -⟩
  refine ends_bind ends_nextCall ?_
  rintro _ _ ⟨rfl, rfl⟩
  refine ends_bind (ends_staged gw hI group fun w' hw' => hw'.1) ?_
  rintro effective w₁ ⟨hI₁, hcaught, hcalls, hfresh, -, honly⟩
  split
  · exact wp_pure ⟨hI₁, honly⟩
  rename_i hne
  have hne' : effective ≠ [] := fun h => hne (by rw [h]; rfl)
  refine ends_bind (R := fun appended w' => Inv start w' ∧ appended.graph = group.graph ∧
    (w'.view group.graph).InPlace ∧ LogsOnly [group.graph] w w') ?_ ?_
  · refine ends_guardWrite gw (fun appended w₂ hw₂ => ?_) hI₁
    split at hw₂
    · cases hw₂
    rename_i hfree
    cases hw₂
    obtain ⟨flipped, hok⟩ := hI₁
    have hok₂ := @GatewayOk.append start flipped w₁ hok ⟨group.graph, effective, w.calls⟩ none hne' hcaught hfresh
      (by dsimp only; omega) (by simpa using hfree) nofun
    refine ⟨⟨⟨flipped, hok₂⟩, rfl, ?_, honly.trans ⟨fun g hg => ?_, fun _ => le_rfl⟩⟩, flipped, hok₂⟩
    · exact inPlace_append (hok.graphs group.graph) (hcaught.inPlace (hok.graphs group.graph))
    · have hne : g ≠ group.graph := by simpa using hg
      exact Function.update_of_ne hne _ _
  · rintro appended w₂ ⟨hI₂, hgraph, hin, honly₂⟩
    rw [← hgraph] at hin
    exact ends_mono (ends_applyCommitted gw hI₂ hin _) (fun _ _ h => ⟨h.1, honly₂.trans h.2.logsOnly⟩) fun _ h => h.1

theorem ends_submitGroupInTransaction (hI : Inv start w) (group : MutationGroup) :
    wp (submitGroupInTransaction gw group) (Ends (fun _ => Inv start) (Inv start)) w := by
  unfold submitGroupInTransaction
  refine ends_bind (ends_lockAll _ hI) ?_
  rintro - _ ⟨rfl, -⟩
  refine ends_bind ends_nextCall ?_
  rintro _ _ ⟨rfl, rfl⟩
  refine ends_bind (ends_staged gw hI group fun w' hw' => hw'.1) ?_
  rintro effective w₁ ⟨hI₁, hcaught, hcalls, hfresh, -, -⟩
  split
  · exact wp_pure hI₁
  rename_i hne
  have hne' : effective ≠ [] := fun h => hne (by rw [h]; rfl)
  refine ends_bind (R := fun appended w' => Inv start w' ∧ (w'.view appended.graph).InPlace) ?_ ?_
  · refine ends_logWrite (fun appended w₂ hw₂ => ?_) hI₁
    split at hw₂
    · cases hw₂
    rename_i hfree
    cases hw₂
    obtain ⟨flipped, hok⟩ := hI₁
    have hok₂ := hok.draft (d := ⟨group.graph, effective, w.calls⟩) hne' hcaught hfresh (by dsimp only; omega)
      (by simpa using hfree)
    exact ⟨⟨⟨flipped, hok₂⟩, hcaught.inPlace (hok.graphs group.graph)⟩, flipped, hok₂⟩
  · rintro appended w₂ ⟨⟨flipped, hok₂⟩, hin⟩
    refine wp_modify ⟨flipped, hok₂.process fun s hs ho => ?_⟩
    rcases List.mem_append.1 hs with hs | hs
    · exact hok₂.opened s hs ho
    · rw [List.mem_singleton.1 hs]
      exact hin

theorem ends_commitTransaction (hI : Inv start w) (submission : ℕ) :
    wp (commitTransaction submission) (Ends (fun _ => Inv start) (Inv start)) w := by
  obtain ⟨flipped, hok⟩ := hI
  refine wp_call ⟨flipped, hok⟩ fun fate => ?_
  cases fate with
  | done => exact ⟨flipped, hok.endTransaction submission true⟩
  | lost => exact ⟨flipped, hok.endTransaction submission true⟩
  | dies => exact ⟨flipped, hok⟩
  | _ => exact ⟨flipped, hok.endTransaction submission false⟩

theorem ends_rollbackTransaction (hI : Inv start w) (submission : ℕ) :
    wp (rollbackTransaction submission) (Ends (fun _ => Inv start) (Inv start)) w := by
  obtain ⟨flipped, hok⟩ := hI
  exact wp_modify ⟨flipped, hok.endTransaction submission false⟩

theorem ends_abort (hI : Inv start w) (submission : ℕ) :
    wp (abort submission) (Ends (fun _ => Inv start) (Inv start)) w := by
  obtain ⟨flipped, hok⟩ := hI
  refine wp_modify ⟨flipped, hok.process fun s hs ho => ?_⟩
  obtain ⟨s', hs', rfl⟩ := List.mem_map.1 hs
  split at ho
  · cases ho
  · rename_i hother
    rw [if_neg hother]
    exact hok.opened s' hs' ho

/-- **`complete`**: while the submission is open its graph is applied in place. -/
theorem ends_complete (hI : Inv start w) (submission : ℕ) :
    wp (complete gw submission) (Ends (fun _ => Inv start) (Inv start)) w := by
  unfold complete
  refine ends_bind (R := fun w₀ w' => w = w₀ ∧ w = w') (wp_get ⟨rfl, rfl⟩) ?_
  rintro _ _ ⟨rfl, rfl⟩
  split
  · exact wp_raise hI
  · rename_i s hs
    have hmem := List.mem_of_find?_eq_some hs
    have hopen : s.isOpen = true := by
      have := List.find?_some hs
      simp only [Bool.and_eq_true] at this
      exact this.2
    have hin : (w.view s.appended.graph).InPlace := by
      obtain ⟨flipped, hok⟩ := hI
      exact hok.opened s hmem hopen
    refine ends_andFinally (S := fun _ => Inv start) (F := Inv start) ?_
      (fun _ w' hw' => ends_abort hw' submission) (fun w' hw' => ends_abort hw' submission) fun _ h => h
    refine ends_bind (R := fun _ w' => w = w') (ends_logRead rfl hI) ?_
    rintro last _ rfl
    refine ends_unless (fun _ => hI) fun _ => ?_
    exact ends_mono (ends_applyCommitted gw hI hin _) (fun _ _ h => h.1) fun _ h => h.1

/-! ## Units -/

/-- What a unit is resolved to: a graph that is applied in place, or the waiting legs of a swap set. -/
def UnitOk (w : World) (u : ApplyUnit) : Prop :=
  match u.swapSet with
  | none => ∃ g, u.graphs = [g] ∧ (w.view g).InPlace
  | some s => SwapLegs w s u.legs

theorem ends_pendingLegs (legs : List AppendedGroup) {E : World → Prop} (hE : E w) :
    wp (pendingLegs legs) (Ends (fun pending w' => w = w' ∧
      pending = legs.filter fun leg => w.applied leg.graph < leg.lastPosition) E) w := by
  induction legs with
  | nil => exact wp_pure ⟨rfl, rfl⟩
  | cons leg legs ih =>
    unfold pendingLegs
    refine ends_bind (R := fun applied w' => applied = w.applied leg.graph ∧ w = w') (ends_logRead ⟨rfl, rfl⟩ hE) ?_
    rintro _ _ ⟨rfl, rfl⟩
    refine ends_bind ih ?_
    rintro rest _ ⟨rfl, rfl⟩
    refine wp_pure ⟨rfl, ?_⟩
    rw [List.filter_cons]
    simp only [decide_eq_true_eq]

/-- **`_resolve_unit`**. -/
theorem ends_resolveUnit (g : String) {E : World → Prop} (hE : E w) :
    wp (resolveUnit gw g) (Ends (fun u w' => w = w' ∧ UnitOk w u) E) w := by
  unfold resolveUnit
  refine ends_guardRead gw ?_ hE
  refine ends_bind (R := fun applied w' => applied = w.applied g ∧ w = w') (ends_logRead ⟨rfl, rfl⟩ rfl) ?_
  rintro _ _ ⟨rfl, rfl⟩
  refine ends_bind (R := fun pending w' => pending = (w.pendingSwapGroup g (w.applied g)).map GroupRow.appended ∧ w = w')
    (ends_logRead ⟨rfl, rfl⟩ rfl) ?_
  rintro _ _ ⟨rfl, rfl⟩
  cases hgroup : w.pendingSwapGroup g (w.applied g) with
  | none => exact wp_pure ⟨rfl, g, rfl, inPlace_of_pendingSwapGroup hgroup⟩
  | some row =>
    have hsome : row.swapSet.isSome = true := by
      have hmem := List.mem_of_mem_head? hgroup
      rw [List.mem_mergeSort, List.mem_filter, decide_eq_true_eq] at hmem
      exact hmem.2.2.1
    obtain ⟨s, hs⟩ := Option.isSome_iff_exists.1 hsome
    have hset : row.appended.swapSet = some s := hs
    rw [Option.map_some]
    dsimp only
    rw [hset, Option.getD_some]
    refine ends_bind (R := fun rows w' => rows = (w.swapSetRows s).map GroupRow.appended ∧ w = w')
      (ends_logRead ⟨rfl, rfl⟩ rfl) ?_
    rintro _ _ ⟨rfl, rfl⟩
    refine ends_bind (ends_pendingLegs _ rfl) ?_
    rintro _ _ ⟨rfl, rfl⟩
    have hrows : ∀ r, r ∈ w.swapSetRows s ↔ r ∈ w.groups ∧ r.swapSet = some s := by
      intro r
      unfold World.swapSetRows
      rw [List.mem_mergeSort, List.mem_filter, decide_eq_true_eq]
    refine wp_pure ⟨rfl, ?_, ?_⟩
    · intro leg hleg
      obtain ⟨hleg, hlt⟩ := List.mem_filter.1 hleg
      obtain ⟨r, hr, rfl⟩ := List.mem_map.1 hleg
      exact ⟨r, ((hrows r).1 hr).1, rfl, ((hrows r).1 hr).2, of_decide_eq_true hlt⟩
    · intro r hr hrs hlt
      refine List.mem_map.2 ⟨r.appended, List.mem_filter.2 ⟨List.mem_map_of_mem ((hrows r).2 ⟨hr, hrs⟩), ?_⟩, rfl⟩
      exact decide_eq_true hlt

/-- **`_apply_unit`**. -/
theorem ends_applyUnit (hI : Inv start w) {u : ApplyUnit} (hu : UnitOk w u) :
    wp (applyUnit gw u) (Ends (fun _ => Same start w) (Same start w)) w := by
  unfold applyUnit
  unfold UnitOk at hu
  cases hset : u.swapSet with
  | none =>
    rw [hset] at hu
    obtain ⟨g, hg, hin⟩ := hu
    rw [hg]
    refine ends_bind (R := fun _ => Same start w) (ends_mono (ends_applyPending gw hI hin)
      (fun _ _ h => ⟨h.1.1, h.1.2.toSameLog⟩) fun _ h => ⟨h.1, h.2.toSameLog⟩) fun _ w' hw' => wp_pure hw'
  | some s =>
    rw [hset] at hu
    dsimp only at hu ⊢
    refine ends_bind (R := fun _ => ProcessOnly w) ?_ ?_
    · -- nothing is logged ahead of a waiting leg
      refine ends_mono (ends_forM (E := ProcessOnly w) (fun _ => ProcessOnly w) (fun _ leg todo hsplit w' hw' => ?_)
        (ProcessOnly.refl w)) (fun _ _ h => h) fun w' hw' => ⟨hw'.inv hI, hw'.sameLog⟩
      obtain ⟨r, hr, rfl, hrs, hlt⟩ := hu.waiting leg (by rw [hsplit]; simp)
      have hfirst : r.appended.firstPosition = w'.applied r.appended.graph + 1 := by
        obtain ⟨flipped, hok⟩ := hI
        have := ((hok.graphs r.graph).swap r (mem_rows.2 ⟨hr, rfl⟩) s hrs hlt).first
        rw [← hw'.view] at this
        exact this
      refine ends_mono (ends_applyPending_ahead gw hfirst) (fun _ w'' hw'' => hw'.trans hw'') fun w'' hw'' =>
        hw'.trans hw''
    · intro _ w' hw'
      obtain ⟨p, hp, hsub⟩ := hw'
      have hprocess : ProcessOnly w w' := ⟨p, hp, hsub⟩
      have hlegs : SwapLegs w' s u.legs :=
        hu.of_swaps ⟨hprocess.sameLog, by rw [hp]⟩
      have hsame : Same start w w' := ⟨hprocess.inv hI, hprocess.sameLog⟩
      exact ends_mono (ends_swapUnit gw hsame.1 hlegs) (fun _ _ h => hsame.trans h.1) fun _ h => hsame.trans h

theorem ends_standing (g : String) {R : World → Prop} {E : World → Prop} (hR : R w) (hE : E w) :
    wp (standing g) (Ends (fun _ => R) E) w := by
  unfold standing
  refine ends_bind (R := fun _ w' => w = w') (ends_logRead rfl hE) ?_
  rintro applied _ rfl
  refine ends_bind (R := fun _ w' => w = w') (ends_logRead rfl hE) ?_
  rintro last _ rfl
  exact wp_pure hR

theorem ends_catchUpUnit (hI : Inv start w) {u : ApplyUnit} (hu : UnitOk w u) :
    wp (catchUpUnit gw g u) (Ends (fun _ => Same start w) (Same start w)) w := by
  unfold catchUpUnit
  refine ends_bind (R := fun _ => Same start w) ?_ fun _ w' hw' => ends_standing g hw' hw'
  refine ends_handle (ends_applyUnit gw hI hu) (fun e w' hw' => ?_) fun _ h => h
  split
  · exact ends_bind (ends_registerAll _) fun _ w'' hw'' => wp_pure (hw'.process hw'')
  · exact wp_raise hw'

/-- **`catch_up`**. -/
theorem ends_withUnit (hI : Inv start w) (attempts : ℕ) :
    wp (withUnit gw g attempts) (Ends (fun _ => Same start w) (Same start w)) w := by
  induction attempts with
  | zero => exact ends_bind (register_ends g) fun _ w' hw' => wp_raise ((Same.refl hI).process hw')
  | succ attempts ih =>
    unfold withUnit
    refine ends_bind (ends_resolveUnit gw g (Same.refl hI)) ?_
    rintro u _ ⟨rfl, -⟩
    refine ends_bind (ends_lockAll u.graphs (Same.refl hI)) ?_
    rintro - _ ⟨rfl, -⟩
    refine ends_bind (ends_resolveUnit gw g (Same.refl hI)) ?_
    rintro current _ ⟨rfl, hu⟩
    split
    · exact ends_catchUpUnit gw hI hu
    · exact ih

theorem ends_recover (hI : Inv start w) : wp (recover gw) (Ends (fun _ => Same start w) (Same start w)) w := by
  unfold recover
  refine ends_bind (R := fun _ w' => w = w') (ends_logRead rfl (Same.refl hI)) ?_
  rintro graphs _ rfl
  refine ends_forM (fun _ => Same start w) (fun _ g _ _ w' hw' => ?_) (Same.refl hI)
  refine ends_handle (F := Same start w) ?_ (fun e w'' hw'' => ?_) fun _ h => h
  · refine ends_bind (ends_mono (ends_withUnit gw hw'.1 3) (fun _ _ h => hw'.trans h) fun _ h => hw'.trans h)
      fun _ w'' hw'' => wp_pure hw''
  · cases e with
    | graphApply h => exact wp_pure hw''
    | applyBlocked h => exact wp_pure hw''
    | logUnavailable => exact wp_pure hw''
    | _ => exact wp_raise hw''

theorem forget_ends (g : String) {E : World → Prop} : wp (forget g) (Ends (fun _ w' => ProcessOnly w w') E) w :=
  wp_modify ⟨_, rfl, rfl⟩

theorem ends_reconcile (hI : Inv start w) : wp (reconcile gw) (Ends (fun _ => Same start w) (Same start w)) w := by
  unfold reconcile
  refine ends_bind (R := fun w₀ w' => w = w₀ ∧ w = w') (wp_get ⟨rfl, rfl⟩) ?_
  rintro _ _ ⟨rfl, rfl⟩
  refine ends_forM (fun _ => Same start w) (fun _ g _ _ w' hw' => ?_) (Same.refl hI)
  have hforget : ∀ w'', Same start w w'' → wp (forget g) (Ends (fun _ => Same start w) (Same start w)) w'' :=
    fun w'' hw'' => ends_mono (forget_ends g) (fun _ _ h => hw''.process h) fun _ h => h
  refine ends_handle (F := Same start w) ?_ (fun e w'' hw'' => ?_) fun _ h => h
  · refine ends_bind (ends_mono (ends_withUnit gw hw'.1 3) (fun _ _ h => hw'.trans h) fun _ h => hw'.trans h)
      fun result w'' hw'' => ?_
    split
    · exact hforget w'' hw''
    · exact wp_pure hw''
  · cases e with
    | graphApply h => exact hforget w'' hw''
    | applyBlocked h => exact hforget w'' hw''
    | _ => exact wp_pure hw''

end Calls

end PolicySystem
