import PolicySystem.Gateway.WorldInvariant

/-!
# Applying keeps the invariant

Under every schedule of fates, from every world in which the invariant holds:

* `ends_applyPending`: what is logged beyond the marker is applied in place, or part of it is;
* `ends_catchUpBeforeWrite`: a graph is caught up before it is written to;
* `ends_stage`: a group passes to the log only over a graph that is caught up.
-/

namespace PolicySystem

open Faults Proc PropertyGraph GraphWrite

/-- **The invariant of the gateway.** -/
def Inv (start : String → Graph) (w : World) : Prop := ∃ flipped, GatewayOk start flipped w

/-! ## External calls -/

section Calls

variable {α : Type} {w : World} {E : World → Prop}

theorem ends_logRead {read : World → α} {R : α → World → Prop} (hR : R (read w) w) (hE : E w) :
    wp (logRead read) (Ends R E) w := by
  refine wp_call hE fun fate => ?_
  cases fate with
  | done => exact hR
  | _ => exact hE

theorem ends_graphRead {read : World → α} {R : α → World → Prop} (hR : R (read w) w) (hE : E w) :
    wp (graphRead read) (Ends R E) w := by
  refine wp_call hE fun fate => ?_
  cases fate with
  | done => exact hR
  | _ => exact hE

/-- A transaction that fails has taken effect or not. -/
theorem ends_logWrite {write : World → Option (α × World)} {R : α → World → Prop}
    (hwrite : ∀ a w', write w = some (a, w') → R a w' ∧ E w') (hE : E w) : wp (logWrite write) (Ends R E) w := by
  refine wp_call hE fun fate => ?_
  cases hw : write w with
  | none => cases fate <;> exact hE
  | some r =>
    obtain ⟨hR, hE'⟩ := hwrite r.1 r.2 hw
    cases fate with
    | done => exact hR
    | lost => exact hE'
    | _ => exact hE

theorem ends_graphWrite {write : World → Option World} {R : Unit → World → Prop}
    (hwrite : ∀ w', write w = some w' → R () w' ∧ E w') (hE : E w) : wp (graphWrite write) (Ends R E) w := by
  refine wp_call hE fun fate => ?_
  cases hw : write w with
  | none => cases fate <;> exact hE
  | some w' =>
    obtain ⟨hR, hE'⟩ := hwrite w' hw
    cases fate with
    | done => exact hR
    | lost => exact hE'
    | _ => exact hE

variable (gw : GraphWriteGateway) {g : String}

/-- A step that is tried again from whatever its failures leave. -/
theorem ends_guardCall {operation : Gw α} {R : α → World → Prop} {I : World → Prop}
    (hstep : ∀ w, I w → wp operation (Ends R I) w) (hE : ∀ w, I w → E w) (hw : I w) :
    wp (guardCall gw g operation) (Ends R E) w := by
  refine ends_handle (ends_retry hstep _ hw) (fun e w' hw' => ?_) hE
  cases e with
  | _ => exact wp_raise (hE w' hw')

/-- A step that only reads. -/
theorem ends_guardRead {operation : Gw α} {R : α → World → Prop} (hstep : wp operation (Ends R (· = w)) w) (hE : E w) :
    wp (guardCall gw g operation) (Ends R E) w := by
  refine ends_guardCall gw (I := (· = w)) (fun w' hw' => ?_) (fun w' hw' => ?_) rfl
  · subst hw'; exact hstep
  · subst hw'; exact hE

/-- A transaction that is tried again only where it could not begin. -/
theorem ends_guardWrite {write : World → Option (α × World)} {R : α → World → Prop}
    (hwrite : ∀ a w', write w = some (a, w') → R a w' ∧ E w') (hE : E w) :
    wp (guardCall gw g (logWrite write)) (Ends R E) w := by
  refine ends_handle (F := E) (ends_retry_same (wp_call hE fun fate => ?_) _ hE) (fun e w' hw' => ?_) fun _ h => h
  · cases hw : write w with
    | none => cases fate <;> first | exact hE | rfl
    | some r =>
      obtain ⟨hR, hE'⟩ := hwrite r.1 r.2 hw
      cases fate with
      | done => exact hR
      | lost => exact hE'
      | unreachable => rfl
      | _ => exact hE
  · cases e with
    | _ => exact wp_raise hw'

end Calls

/-! ## Frames of a step -/

/-- Only what the process remembers changes, and no submission. -/
def ProcessOnly (w w' : World) : Prop := ∃ p, w' = { w with process := p } ∧ p.submissions = w.process.submissions

section Frames

variable {start : String → Graph} {w w' w'' : World} {g : String}

theorem ProcessOnly.refl (w : World) : ProcessOnly w w := ⟨w.process, rfl, rfl⟩

theorem ProcessOnly.trans (h : ProcessOnly w w') (h' : ProcessOnly w' w'') : ProcessOnly w w'' := by
  obtain ⟨p, rfl, hp⟩ := h
  obtain ⟨p', rfl, hp'⟩ := h'
  exact ⟨p', rfl, hp'.trans hp⟩

theorem ProcessOnly.applies {graphs : List String} (h : ProcessOnly w w') : AppliesOnly graphs w w' := by
  obtain ⟨p, rfl, hp⟩ := h
  exact ⟨⟨rfl, rfl, rfl, rfl, hp, fun _ => le_refl _⟩, fun _ _ => rfl⟩

theorem ProcessOnly.sameLog (h : ProcessOnly w w') : SameLog w w' :=
  AppliesOnly.toSameLog (h.applies : AppliesOnly [] w w')

theorem ProcessOnly.view (h : ProcessOnly w w') (g : String) : w'.view g = w.view g := by
  obtain ⟨p, rfl, -⟩ := h
  rfl

theorem ProcessOnly.inv (h : ProcessOnly w w') (hI : Inv start w) : Inv start w' := by
  obtain ⟨flipped, hok⟩ := hI
  exact ⟨flipped, hok.of_sameLog h.sameLog fun g => by rw [h.view]; exact hok.graphs g⟩

theorem block_ends (g : String) {E : World → Prop} : wp (block g) (Ends (fun _ w' => ProcessOnly w w') E) w :=
  wp_modify ⟨_, rfl, rfl⟩

theorem unblock_ends (g : String) {E : World → Prop} : wp (unblock g) (Ends (fun _ w' => ProcessOnly w w') E) w :=
  wp_modify ⟨_, rfl, rfl⟩

theorem register_ends (g : String) {E : World → Prop} : wp (register g) (Ends (fun _ w' => ProcessOnly w w') E) w :=
  wp_modify ⟨_, rfl, rfl⟩

/-- The invariant holds, and only one graph's marker and content moved. -/
def Moved (start : String → Graph) (g : String) (w w' : World) : Prop := Inv start w' ∧ AppliesOnly [g] w w'

theorem Moved.process (h : Moved start g w w') (hp : ProcessOnly w' w'') : Moved start g w w'' :=
  ⟨hp.inv h.1, h.2.trans hp.applies⟩

end Frames

/-! ## Reads of the log -/

section Reads

variable {start : Graph} {flipped : ℕ → Prop} {w : World} {g : String}

theorem decodeEntries_rowOf (entries : List Positioned) : decodeEntries (entries.map rowOf) = pure entries := by
  induction entries with
  | nil => rfl
  | cons x entries ih =>
    show (do let decoded ← decodeEntries (entries.map rowOf); return x :: decoded) = pure (x :: entries)
    rw [ih]
    rfl

/-- The rows beyond the marker. -/
theorem pendingRows_eq (h : GraphOk start flipped (w.view g)) :
    (w.entries g).filter (fun row => w.applied g < row.position) = (w.view g).pending.map rowOf := by
  have hentries : w.entries g = (numbered 1 (w.view g).logged).map rowOf := h.entries
  rw [hentries, GraphView.pending, view_applied, Nat.add_comm, ← filter_numbered 1 (w.applied g) (w.view g).logged]
  refine List.filter_congr fun row _ => ?_
  rw [decide_eq_decide]
  omega

theorem runs_drop {decoded : List Positioned} {done todo : List (List Positioned)} (h : runs decoded = done ++ todo) :
    runs todo.flatten = todo := by
  induction done generalizing decoded with
  | nil => rw [List.nil_append] at h; rw [← h, runs_flatten]
  | cons run done ih => exact ih (runs_tail h)

end Reads

/-! ## One pass -/

section Pass

variable (gw : GraphWriteGateway) {start : String → Graph} {w : World} {g : String}

/-- One run of a pass: its queries, and then its position. -/
theorem ends_run (hI : Inv start w) (hin : (w.view g).InPlace) {run : List Positioned} {todo : List (List Positioned)}
    (hruns : runs (w.view g).pending = run :: todo) :
    wp (do
      (chunksOf run gw.settings.batchSize).forM fun chunk =>
        match chunk.map Prod.snd with
        | [] => pure ()
        | first :: rest => queryLive g (chunkQuery first (first :: rest))
      match run.getLast? with
      | some last => advanceAppliedPosition g last.1
      | none => pure ())
      (Ends (fun _ w' => Moved start g w w' ∧ w'.applied g = w.applied g + run.length) (Moved start g w)) w := by
  obtain ⟨flipped, hok⟩ := hI
  have hb := gw.settings.batchSize_pos
  -- the entries of the run are the first ones beyond the marker
  have hpending : (w.view g).pending = run ++ todo.flatten := by
    rw [← runs_flatten (w.view g).pending, hruns, List.flatten_cons]
  obtain ⟨hrun, -⟩ := numbered_split hpending
  have hrunlen : run.length ≤ ((w.view g).logged.drop (w.applied g)).length := by
    have := congrArg List.length hpending
    rw [GraphView.pending, numbered_length, List.length_append] at this
    change ((w.view g).logged.drop (w.applied g)).length = _ at this
    omega
  have hlags := (hok.graphs g).inPlace hin
  let content := fun (done : List (List Positioned)) =>
    done.foldl (fun g chunk => applyChunk g (chunk.map Prod.snd)) (w.content g)
  refine ends_bind (R := fun _ w' => GatewayOk start flipped w' ∧ AppliesOnly [g] w w' ∧
    w'.view g = { w.view g with content := content (chunksOf run gw.settings.batchSize) }) ?_ ?_
  · refine ends_mono (ends_forM (E := Moved start g w) (fun done w' =>
      done <+: chunksOf run gw.settings.batchSize ∧ GatewayOk start flipped w' ∧ AppliesOnly [g] w w' ∧
        w'.view g = { w.view g with content := content done })
      (fun done chunk todo hsplit w' hw' => ?_) ⟨List.nil_prefix, hok, AppliesOnly.refl w, rfl⟩)
      (fun _ w' hw' => hw'.2) fun _ h => h
    obtain ⟨-, hok', hmove, hview⟩ := hw'
    have hpre : done ++ [chunk] <+: chunksOf run gw.settings.batchSize := ⟨todo, by rw [hsplit]; simp⟩
    have hnext : content (done ++ [chunk]) = applyChunk (content done) (chunk.map Prod.snd) := by
      simp only [content, List.foldl_append, List.foldl_cons, List.foldl_nil]
    split
    · rename_i hnil
      refine wp_pure ⟨hpre, hok', hmove, ?_⟩
      rw [hnext, hnil]
      exact hview
    · rename_i first rest hchunk
      have hcontent : w'.content g = content done := congrArg GraphView.content hview
      refine ends_graphWrite (fun w'' hw'' => ?_) ⟨⟨flipped, hok'⟩, hmove⟩
      cases hw''
      -- some queries of the first run keep the content lagging
      have hview'' : (w'.setLive g (((w'.live g).getD {}).query (chunkQuery first (first :: rest)))).view g =
          { w.view g with content := content (done ++ [chunk]) } := by
        rw [view_setLive, hview, hnext, hchunk, ← hcontent]
        rfl
      have hok'' : GatewayOk start flipped
          (w'.setLive g (((w'.live g).getD {}).query (chunkQuery first (first :: rest)))) := by
        refine hok'.change (setLive_applies _ g _) ?_
        rw [hview'']
        exact (hok.graphs g).query hin (lags_chunks hb hruns hlags hpre)
      have hmove'' := hmove.trans (setLive_applies w' g (((w'.live g).getD {}).query (chunkQuery first (first :: rest))))
      exact ⟨⟨hpre, hok'', hmove'', hview''⟩, ⟨flipped, hok''⟩, hmove''⟩
  · rintro - w' ⟨hok', hmove, hview⟩
    have happlied : w'.applied g = w.applied g := congrArg GraphView.applied hview
    cases hlast : run.getLast? with
    | none =>
      rw [List.getLast?_eq_none_iff.1 hlast]
      exact wp_pure ⟨⟨⟨flipped, hok'⟩, hmove⟩, happlied⟩
    | some last =>
      have hlast' : last.1 = w.applied g + run.length := by
        rw [hrun] at hlast
        have := numbered_getLast hlast
        rw [List.length_take] at this
        change last.1 + 1 = w.applied g + 1 + min run.length ((w.view g).logged.drop (w.applied g)).length at this
        omega
      have hbound : w.applied g + run.length ≤ (w'.view g).logged.length := by
        rw [hmove.logged]
        rw [List.length_drop] at hrunlen
        have hm : w.applied g ≤ (w.view g).logged.length := (hok.graphs g).marker
        omega
      refine ends_logWrite (fun u w'' hw'' => ?_) ⟨⟨flipped, hok'⟩, hmove⟩
      split at hw''
      · cases hw''
      cases hw''
      have hmax : max (w'.applied g) last.1 = w.applied g + run.length := by omega
      have hset : { w' with applied := Function.update w'.applied g (max (w'.applied g) last.1) } =
          w'.setApplied g (w.applied g + run.length) := by
        rw [hmax]; rfl
      rw [hset]
      have hok'' : GatewayOk start flipped (w'.setApplied g (w.applied g + run.length)) := by
        refine hok'.advance (hmove.inPlace hin) (by omega) hbound ?_
        have hcontent : w'.content g = applyRun gw.settings.batchSize (w.content g) run :=
          congrArg GraphView.content hview
        rw [hcontent, ← view_content, lags_run hb hruns hlags, hmove.logged, List.take_add, applyAll_append]
        conv_lhs => rw [hrun, map_snd_numbered]
        rfl
      have hmove'' := hmove.trans (setApplied_applies w' (show w'.applied g ≤ w.applied g + run.length by omega))
      exact ⟨⟨⟨⟨flipped, hok''⟩, hmove''⟩, Function.update_self ..⟩, ⟨flipped, hok''⟩, hmove''⟩

/-- **One pass over all that is pending.** -/
theorem ends_applyEntries (hI : Inv start w) (hin : (w.view g).InPlace) :
    wp (applyEntries gw (queryLive g) ((w.view g).pending.map rowOf) (advanceAppliedPosition g))
      (Ends (fun _ w' => Moved start g w w' ∧ (w'.view g).CaughtUp) (Moved start g w)) w := by
  have hmoved : Moved start g w w := ⟨hI, AppliesOnly.refl w⟩
  unfold applyEntries
  rw [decodeEntries_rowOf]
  refine ends_bind (R := fun decoded w' => decoded = (w.view g).pending ∧ w = w') (wp_pure ⟨rfl, rfl⟩) ?_
  rintro _ _ ⟨rfl, rfl⟩
  refine ends_bind (R := fun _ w' => w = w') ?_ ?_
  · unfold ensureIndexes
    split
    · exact wp_pure rfl
    · exact ends_graphRead rfl hmoved
  rintro _ _ rfl
  refine ends_mono (ends_forM (E := Moved start g w) (fun done w' =>
    Moved start g w w' ∧ w'.applied g = w.applied g + done.flatten.length) (fun done run todo hsplit w' hw' => ?_)
    ⟨hmoved, rfl⟩) (fun _ w' hw' => ⟨hw'.1, ?_⟩) fun _ h => h
  · obtain ⟨⟨hI', hmove⟩, happlied⟩ := hw'
    -- what is pending now are the runs that are left
    have hflat : (w.view g).pending = done.flatten ++ (run :: todo).flatten := by
      rw [← runs_flatten (w.view g).pending, hsplit, List.flatten_append]
    have hpending : (w'.view g).pending = (run :: todo).flatten := by
      obtain ⟨-, hrest⟩ := numbered_split hflat
      rw [hrest]
      unfold GraphView.pending
      rw [hmove.logged, List.drop_drop]
      have h1 : (w'.view g).applied = (w.view g).applied + done.flatten.length := happlied
      rw [h1]
      congr 1
      omega
    have hruns : runs (w'.view g).pending = run :: todo := by
      rw [hpending]; exact runs_drop hsplit
    refine ends_mono (ends_run gw hI' (hmove.inPlace hin) hruns) (fun _ w'' hw'' => ?_) fun w'' hw'' =>
      ⟨hw''.1, hmove.trans hw''.2⟩
    obtain ⟨⟨hI'', hmove''⟩, happlied''⟩ := hw''
    refine ⟨⟨hI'', hmove.trans hmove''⟩, ?_⟩
    rw [happlied'', happlied, List.flatten_append, List.length_append]
    simp [Nat.add_assoc]
  · obtain ⟨⟨-, hmove⟩, happlied⟩ := hw'
    have hlen : (runs (w.view g).pending).flatten.length = (w.view g).logged.length - w.applied g := by
      rw [runs_flatten, GraphView.pending, numbered_length, List.length_drop]
      rfl
    obtain ⟨flipped, hok⟩ := hI
    have hm : w.applied g ≤ (w.view g).logged.length := (hok.graphs g).marker
    unfold GraphView.CaughtUp
    rw [hmove.logged]
    change w'.applied g = _
    omega

/-- One pass reads what is pending and applies it. -/
theorem ends_applyPass (hI : Inv start w) (hin : (w.view g).InPlace) :
    wp (applyPass gw g none) (Ends (fun _ w' => Moved start g w w' ∧ (w'.view g).CaughtUp) (Moved start g w)) w := by
  have hmoved : Moved start g w w := ⟨hI, AppliesOnly.refl w⟩
  have hrows : (w.entries g).filter (fun row => w.applied g < row.position) = (w.view g).pending.map rowOf := by
    obtain ⟨flipped, hok⟩ := hI
    exact pendingRows_eq (hok.graphs g)
  unfold applyPass
  refine ends_bind (R := fun applied w' => applied = w.applied g ∧ w = w') (ends_logRead ⟨rfl, rfl⟩ hmoved) ?_
  rintro _ _ ⟨rfl, rfl⟩
  refine ends_bind (R := fun rows w' => rows = (w.view g).pending.map rowOf ∧ w = w')
    (ends_logRead ⟨hrows, rfl⟩ hmoved) ?_
  rintro _ _ ⟨rfl, rfl⟩
  exact ends_applyEntries gw hI hin

/-- **`_apply_pending`** brings a graph that is applied in place to the end of its log, or part of the way. -/
theorem ends_applyPending (hI : Inv start w) (hin : (w.view g).InPlace) :
    wp (applyPending gw g none) (Ends (fun _ w' => Moved start g w w' ∧ (w'.view g).CaughtUp) (Moved start g w)) w := by
  unfold applyPending
  refine ends_bind (R := fun _ w' => Moved start g w w' ∧ (w'.view g).CaughtUp) ?_ fun _ w' hw' => ?_
  · refine ends_handle (F := Moved start g w) ?_ (fun e w' hw' => ?_) fun _ h => h
    · -- a failed attempt leaves a world the next attempt may start in
      refine ends_guardCall gw (I := Moved start g w) (fun w' hw' => ?_) (fun _ h => h) ⟨hI, AppliesOnly.refl w⟩
      refine ends_mono (ends_applyPass gw hw'.1 (hw'.2.inPlace hin)) (fun _ w'' h => ?_) fun w'' h => ?_
      · exact ⟨⟨h.1.1, hw'.2.trans h.1.2⟩, h.2⟩
      · exact ⟨h.1, hw'.2.trans h.2⟩
    · cases e with
      | graphApply h => exact ends_bind (block_ends g) fun _ w'' hw'' => wp_raise (hw'.process hw'')
      | _ => exact wp_raise hw'
  · refine ends_mono (unblock_ends g) (fun _ w'' hw'' => ⟨hw'.1.process hw'', ?_⟩) fun _ h => h
    rw [hw''.view]
    exact hw'.2

/-- Ahead of a group that is the next beyond the marker there is nothing to apply. -/
theorem ends_applyPending_ahead {first : ℕ} (hfirst : first = w.applied g + 1) :
    wp (applyPending gw g (some first)) (Ends (fun _ => ProcessOnly w) (ProcessOnly w)) w := by
  subst hfirst
  have hpass : wp (applyPass gw g (some (w.applied g + 1))) (Ends (fun _ => ProcessOnly w) (w = ·)) w := by
    unfold applyPass
    refine ends_bind (R := fun applied w' => applied = w.applied g ∧ w = w') (ends_logRead ⟨rfl, rfl⟩ rfl) ?_
    rintro _ _ ⟨rfl, rfl⟩
    refine ends_bind (R := fun rows w' => rows.filter (fun row => row.position < w.applied g + 1) = [] ∧ w = w')
      (ends_logRead ⟨?_, rfl⟩ rfl) ?_
    · rw [List.filter_filter, List.filter_eq_nil_iff]
      intro row _
      simp only [Bool.and_eq_true, decide_eq_true_eq]
      omega
    rintro rows _ ⟨hnone, rfl⟩
    dsimp only
    rw [hnone]
    exact wp_pure (ProcessOnly.refl w)
  unfold applyPending
  refine ends_bind (R := fun _ => ProcessOnly w) ?_ fun _ w' hw' => ?_
  · refine ends_handle (F := ProcessOnly w) ?_ (fun e w' hw' => ?_) fun _ h => h
    · refine ends_guardCall gw (I := (w = ·)) (fun w' hw' => ?_) (fun w' hw' => ?_) rfl
      · subst hw'; exact hpass
      · subst hw'; exact ProcessOnly.refl w
    · cases e with
      | graphApply h => exact ends_bind (block_ends g) fun _ w'' hw'' => wp_raise (hw'.trans hw'')
      | _ => exact wp_raise hw'
  · exact ends_mono (unblock_ends g) (fun _ w'' hw'' => hw'.trans hw'') fun _ h => h

end Pass

/-! ## Catching up -/

section CatchUp

variable (gw : GraphWriteGateway) {start : String → Graph} {flipped : ℕ → Prop} {w : World} {g : String}

/-- Where the log shows no swap group beyond the marker, everything is applied in place. -/
theorem inPlace_of_pendingSwapGroup (h : w.pendingSwapGroup g (w.applied g) = none) : (w.view g).InPlace := by
  intro r hr hs
  unfold World.pendingSwapGroup at h
  rw [List.head?_eq_none_iff] at h
  have hnil := List.length_eq_zero_iff.2 h
  rw [List.length_mergeSort, List.length_eq_zero_iff, List.filter_eq_nil_iff] at hnil
  obtain ⟨hr, hg⟩ := mem_rows.1 hr
  have := hnil r hr
  simp only [hg, true_and, decide_eq_true_eq, not_and, not_lt, Option.isSome_iff_ne_none] at this
  exact this hs

theorem ends_refusePendingSwap :
    wp (refusePendingSwap gw g) (Ends (fun _ w' => w = w' ∧ (w.view g).InPlace) (ProcessOnly w)) w := by
  unfold refusePendingSwap
  refine ends_bind (R := fun pending w' => pending = (w.pendingSwapGroup g (w.applied g)).map GroupRow.appended ∧ w = w')
    ?_ ?_
  · refine ends_guardRead gw ?_ (ProcessOnly.refl w)
    refine ends_bind (R := fun applied w' => applied = w.applied g ∧ w = w') (ends_logRead ⟨rfl, rfl⟩ rfl) ?_
    rintro _ _ ⟨rfl, rfl⟩
    exact ends_logRead ⟨rfl, rfl⟩ rfl
  rintro _ _ ⟨rfl, rfl⟩
  split
  · exact ends_bind (register_ends g) fun _ w' hw' => wp_raise hw'
  · rename_i hnone
    refine wp_pure ⟨rfl, inPlace_of_pendingSwapGroup ?_⟩
    simpa using hnone

/-- **`_catch_up_before_write`** returns over a graph whose log is applied to its end. -/
theorem ends_catchUpBeforeWrite (hI : Inv start w) :
    wp (catchUpBeforeWrite gw g)
      (Ends (fun _ w' => Moved start g w w' ∧ (w'.view g).CaughtUp) (Moved start g w)) w := by
  have hmoved : Moved start g w w := ⟨hI, AppliesOnly.refl w⟩
  unfold catchUpBeforeWrite
  refine ends_bind (R := fun lagging w' => lagging = decide (w.applied g ≠ w.lastPosition g) ∧ w = w') ?_ ?_
  · refine ends_guardRead gw ?_ hmoved
    refine ends_bind (R := fun applied w' => applied = w.applied g ∧ w = w') (ends_logRead ⟨rfl, rfl⟩ rfl) ?_
    rintro _ _ ⟨rfl, rfl⟩
    refine ends_bind (R := fun last w' => last = w.lastPosition g ∧ w = w') (ends_logRead ⟨rfl, rfl⟩ rfl) ?_
    rintro _ _ ⟨rfl, rfl⟩
    exact wp_pure ⟨rfl, rfl⟩
  rintro _ _ ⟨rfl, rfl⟩
  split
  · refine ends_bind (R := fun _ w' => w = w' ∧ (w.view g).InPlace)
      (ends_mono (ends_refusePendingSwap gw) (fun _ _ h => h) fun w' hw' => hmoved.process hw') ?_
    rintro _ _ ⟨rfl, hin⟩
    refine ends_handle (ends_applyPending gw hI hin) (fun e w' hw' => ?_) fun _ h => h
    dsimp only
    split
    · exact ends_bind (register_ends g) fun _ w'' hw'' => wp_raise (hw'.process hw'')
    · exact wp_raise hw'
  · rename_i hsame
    refine wp_pure ⟨hmoved, ?_⟩
    obtain ⟨flipped, hok⟩ := hI
    have hlast := lastPosition_eq (hok.graphs g)
    unfold GraphView.CaughtUp
    rw [view_applied, ← hlast]
    simpa using hsame

end CatchUp

/-! ## Staging -/

section Staging

variable (gw : GraphWriteGateway) {start : String → Graph} {w : World}

theorem ends_validateGroup (primitives : List Primitive) {E : World → Prop} (hE : E w) :
    wp (validateGroup gw primitives)
      (Ends (fun _ w' => w = w' ∧ ∀ p ∈ primitives, p.isAllowed gw.allow = true) E) w := by
  unfold validateGroup
  split
  · rename_i hall
    exact wp_pure ⟨rfl, List.all_eq_true.1 hall⟩
  · exact wp_raise hE

theorem ends_requirePreconditions (group : MutationGroup) {E : World → Prop} (hE : E w) :
    wp (requirePreconditions gw group) (Ends (fun _ w' => w = w') E) w := by
  refine ends_forM (fun _ w' => w = w') (fun _ expected _ _ w' hw' => ?_) rfl
  subst hw'
  refine ends_bind (R := fun _ w' => w = w') (ends_guardRead gw (ends_logRead rfl rfl) hE) ?_
  rintro actual _ rfl
  split
  · exact wp_raise hE
  · exact wp_pure rfl

/-- What a group is filtered from: a leg is expanded first. -/
def expandedOf (w : World) (group : MutationGroup) : Option Bool → List Primitive
  | none => group.primitives
  | some replace => expandLeg gw.allow gw.scan (w.content group.graph) group.primitives replace

/-- The effective primitives of a group over a graph that is caught up; a leg's may be applied over and over. -/
structure Effective (w : World) (group : MutationGroup) (replace : Option Bool) (effective : List Primitive) :
    Prop where
  caughtUp : (w.view group.graph).CaughtUp
  selected : selectEffectivePrimitives gw.scan (w.content group.graph) (expandedOf gw w group replace) = .ok effective
  redoable : replace ≠ none → ∃ stamps rest, effective = stamps.map .stampEdgeIdentity ++ rest ∧
    Redoable (w.content group.graph) stamps rest

/-- The selection is read from a graph that does not change. -/
theorem ends_selected {α : Type} {g : String} {primitives : List Primitive}
    {k : Except MissingTarget (List Primitive) → Gw α} {R : α → World → Prop} {E : World → Prop} (hE : E w)
    (hk : ∀ selected, selectEffectivePrimitives gw.scan (w.content g) primitives = selected →
      wp (k selected) (Ends R E) w) :
    wp (guardCall gw g (graphRead fun w => selectEffectivePrimitives gw.scan (w.content g) primitives) >>= k)
      (Ends R E) w := by
  refine ends_bind (R := fun selected w' => w = w' ∧ selectEffectivePrimitives gw.scan (w.content g) primitives = selected)
    (ends_guardRead gw (ends_graphRead ⟨rfl, rfl⟩ rfl) hE) ?_
  rintro selected _ ⟨rfl, hsel⟩
  exact hk selected hsel

/-- **`_stage`** answers the effective primitives over the graph as the log has it. -/
theorem ends_stage (hI : Inv start w) (group : MutationGroup) (replace : Option Bool)
    (hups : replace = some true → UpsertOnly group.primitives) :
    wp (stage gw group replace)
      (Ends (fun effective w' => Moved start group.graph w w' ∧ Effective gw w' group replace effective)
        (Moved start group.graph w)) w := by
  have hmoved : Moved start group.graph w w := ⟨hI, AppliesOnly.refl w⟩
  unfold stage
  refine ends_bind (R := fun w₀ w' => w = w₀ ∧ w = w') (wp_get ⟨rfl, rfl⟩) ?_
  rintro _ _ ⟨rfl, rfl⟩
  refine ends_unless (fun _ => hmoved) fun _ => ?_
  refine ends_bind (ends_catchUpBeforeWrite gw hI) fun _ w₁ hw₁ => ?_
  obtain ⟨hmoved₁, hcaught⟩ := hw₁
  refine ends_bind (ends_validateGroup gw group.primitives hmoved₁) ?_
  rintro _ _ ⟨rfl, hallow⟩
  refine ends_bind (ends_requirePreconditions gw group hmoved₁) ?_
  rintro _ _ rfl
  -- the graph is read for the expansion and for the filter, and does not change in between
  have hselected : ∀ effective,
      selectEffectivePrimitives gw.scan (w₁.content group.graph) (expandedOf gw w₁ group replace) = .ok effective →
      wp (pure effective : Gw (List Primitive)) (Ends (fun effective w' => Moved start group.graph w w' ∧
        Effective gw w' group replace effective) (Moved start group.graph w)) w₁ := by
    intro effective hsel
    refine wp_pure ⟨hmoved₁, hcaught, hsel, fun hleg => ?_⟩
    obtain ⟨b, hb⟩ := Option.ne_none_iff_exists'.1 hleg
    rw [hb] at hsel
    exact effective_redoable hallow (fun h => hups (by rw [hb, h])) hsel
  cases replace with
  | none =>
    refine ends_bind (R := fun primitives w' => w₁ = w' ∧ primitives = group.primitives) (wp_pure ⟨rfl, rfl⟩) ?_
    rintro primitives _ ⟨rfl, rfl⟩
    refine ends_selected gw hmoved₁ fun selected hsel => ?_
    cases selected with
    | ok effective => exact hselected effective hsel
    | error missing => exact wp_raise hmoved₁
  | some b =>
    refine ends_bind (R := fun primitives w' => w₁ = w' ∧
      primitives = expandLeg gw.allow gw.scan (w₁.content group.graph) group.primitives b) ?_ ?_
    · unfold expanded
      refine ends_bind (R := fun primitives w' => w₁ = w' ∧
        primitives = expandLeg gw.allow gw.scan (w₁.content group.graph) group.primitives b)
        (ends_guardRead gw (ends_graphRead ⟨rfl, rfl⟩ rfl) hmoved₁) ?_
      rintro _ _ ⟨rfl, rfl⟩
      dsimp only
      split
      · refine ends_bind (ends_validateGroup gw _ hmoved₁) ?_
        rintro _ _ ⟨rfl, -⟩
        exact wp_pure ⟨rfl, rfl⟩
      · exact wp_pure ⟨rfl, rfl⟩
    · rintro primitives _ ⟨rfl, rfl⟩
      refine ends_selected gw hmoved₁ fun selected hsel => ?_
      cases selected with
      | ok effective => exact hselected effective hsel
      | error missing => exact wp_raise hmoved₁

end Staging

end PolicySystem
